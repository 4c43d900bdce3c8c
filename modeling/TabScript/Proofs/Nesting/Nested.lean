import TabScript.Proofs.Checks.Parsed
import TabScript.Proofs.Lossless.Tokens
import TabScript.Proofs.Nesting.Parsed
import TabScript.Proofs.Provenance.Run
import TabScript.Proofs.Spelling.Program

/-! The stretches of a tree lie inside each other.

The tokens of a text stand one behind the other, and the parts of a node are read from runs of its own tokens. So the
stretch of a node holds those of its parts, one behind the other. -/

set_option autoImplicit false

namespace TabScript

namespace Node

def pieces : Node → List Span
  | literal .. | identifier .. | pass _ | result _ none => []
  | unary _ _ operatorSpan operand => [operatorSpan, operand.span]
  | binary _ _ operatorSpan left right => [left.span, operatorSpan, right.span]
  | call _ callee arguments => callee.span :: arguments.map span
  | element _ target index => [target.span, index.span]
  | slice _ target start stop => [target.span, start.span, stop.span]
  | array _ items => items.map span
  | assignment _ target value => [target.span, value.span]
  | choice _ condition body others otherwise =>
    condition.span :: body.span ::
      (others.flatMap (fun branch => [branch.condition.span, branch.body.span]) ++ otherwise.toList.map Block.span)
  | loop _ condition body => [condition.span, body.span]
  | definition _ _ _ body => [body.span]
  | result _ (some value) => [value.span]
  | deletion _ target => [target.span]

/-- The nodes directly inside a node, those in its blocks apart. -/
def operands : Node → List Node
  | literal .. | identifier .. | pass _ | result _ none | definition .. => []
  | unary _ _ _ operand => [operand]
  | binary _ _ _ left right => [left, right]
  | call _ callee arguments => callee :: arguments
  | element _ target index => [target, index]
  | slice _ target start stop => [target, start, stop]
  | array _ items => items
  | assignment _ target value => [target, value]
  | choice _ condition _ others _ => condition :: others.map Branch.condition
  | loop _ condition _ => [condition]
  | result _ (some value) => [value]
  | deletion _ target => [target]

end Node

mutual

/-- The stretch of the node holds those of its parts, and so it is all the way down. A node with blocks ends with
the last of them. -/
inductive Node.Nested : Node → Prop where
  | of {node : Node} (holds : node.span.Holds node.pieces)
    (closes : ∀ last ∈ node.bodies.getLast?, node.span.stop = last.span.stop)
    (operands : ∀ operand ∈ node.operands, Node.Nested operand) (bodies : ∀ body ∈ node.bodies, Block.Nested body) :
    Node.Nested node

/-- The stretch of the block holds those of its statements, from the first to the last. -/
inductive Block.Nested : Block → Prop where
  | of {block : Block} (holds : block.span.Holds (block.statements.map Node.span))
    (extent : block.span = Span.across (block.statements.map Node.span))
    (statements : ∀ node ∈ block.statements, Node.Nested node) : Block.Nested block

end

namespace Token

variable {token : Token} {tokens others : List Token} {spans further : List Span}

theorem parted_append (first : Span.Parted (places tokens) spans) (second : Span.Parted (places others) further) :
    Span.Parted (places (tokens ++ others)) (spans ++ further) := by
  rw [places_append]
  exact first.append second

theorem parted_behind (before : List Token) (parted : Span.Parted (places tokens) spans) :
    Span.Parted (places (before ++ tokens)) spans :=
  parted_append (.none (places before)) parted

theorem parted_before (parted : Span.Parted (places tokens) spans) (behind : List Token) :
    Span.Parted (places (tokens ++ behind)) spans := by
  have whole := parted_append parted (.none (places behind))
  rwa [List.append_nil] at whole

theorem parted_one (content : token.kind.isContent = true) (parted : Span.Parted (places tokens) spans) :
    Span.Parted (places (token :: tokens)) (token.span :: spans) := by
  rw [places_cons content]
  exact parted.one

theorem Ordered.holds (row : Ordered tokens) (parted : Span.Parted (places tokens) spans)
    (some_ : places tokens ≠ []) : (extent tokens).Holds spans :=
  parted.holds row some_

end Token

/-! Where the parts stand among the tokens. -/

namespace Node

open Token (parted_append parted_behind parted_before parted_one isContent_of_is)

theorem Listed.parted : ∀ {tokens : List Token} {items : List Node}, Listed tokens items →
    Span.Parted (Token.places tokens) (items.map span)
  | _, _, .nil => .nil
  | _, _, .last made => made.fills.parted
  | _, _, @Listed.separated _ _ comma _ _ made _ others =>
    parted_append made.fills.parted (parted_behind [comma] others.parted)

theorem Formed.parted : ∀ {tokens : List Token} {node : Node}, Formed tokens node →
    Span.Parted (Token.places tokens) node.pieces
  | _, _, .constant .. | _, _, .none .. | _, _, .identifier .. => .none _
  | _, _, @Formed.group opening closing _ _ _ inner _ => parted_behind [opening] (parted_before inner.parted [closing])
  | _, _, @Formed.array opening closing _ _ _ _ each _ =>
    parted_behind [opening] (parted_before each.parted [closing])
  | _, _, .unary mark _ made => parted_one (isContent_of_is rfl mark) made.fills.parted
  | _, _, .binary first mark _ second =>
    parted_append first.fills.parted (parted_one (isContent_of_is rfl mark) second.fills.parted)
  | _, _, @Formed.assignment _ _ sign _ _ _ assigned _ given =>
    parted_append assigned.fills.parted (parted_behind [sign] given.fills.parted)
  | _, _, @Formed.call _ _ opening closing _ _ _ called _ each _ =>
    parted_append called.fills.parted (parted_behind [opening] (parted_before each.parted [closing]))
  | _, _, @Formed.element _ _ opening closing _ _ _ root _ position _ =>
    parted_append root.fills.parted (parted_behind [opening] (parted_before position.fills.parted [closing]))
  | _, _, @Formed.slice _ _ _ opening colon closing _ _ _ _ root _ first _ last _ =>
    parted_append root.fills.parted (parted_behind [opening] (parted_append first.fills.parted
      (parted_behind [colon] (parted_before last.fills.parted [closing]))))

end Node

theorem Node.Formed.bodies_eq : ∀ {tokens : List Token} {node : Node}, Node.Formed tokens node → node.bodies = []
  | _, _, .group _ inner _ => inner.bodies_eq
  | _, _, .constant .. | _, _, .none .. | _, _, .identifier .. | _, _, .array .. | _, _, .unary ..
  | _, _, .binary .. | _, _, .assignment .. | _, _, .call .. | _, _, .element .. | _, _, .slice .. => rfl

theorem Block.ending?_map {blocks : List Block} {last : Block} (final : last ∈ blocks.getLast?) :
    Span.ending? (blocks.map Block.span) = some last.span.stop := by
  rw [Span.ending?, List.getLast?_map, Option.mem_def.1 final]
  rfl

theorem Branch.AllMade.parted : ∀ {tokens : List Token} {branches : List Branch}, Branch.AllMade tokens branches →
    Span.Parted (Token.places tokens)
      (branches.flatMap fun branch => [branch.condition.span, branch.body.span])
  | _, _, .nil => .nil
  | _, _, @Branch.AllMade.cons word _ _ _ _ _ _ _ asked guarded others => by
    have both := Token.parted_append asked.fills.parted (Token.parted_append guarded.fills.parted others.parted)
    rw [List.flatMap_cons]
    exact Token.parted_behind [word] both

theorem Node.Sentence.parted {tokens : List Token} {node : Node} (form : Node.Sentence tokens node) :
    Span.Parted (Token.places tokens) node.pieces := by
  cases form with
  | expression made =>
    obtain ⟨form, -⟩ := made
    exact Token.parted_before form.parted _
  | pass | bare => exact .none _
  | @result word ending _ _ _ _ given =>
    exact Token.parted_behind [word] (Token.parted_before given.fills.parted [ending])
  | @deletion word ending _ _ _ _ deleted =>
    exact Token.parted_behind [word] (Token.parted_before deleted.fills.parted [ending])
  | @choice word _ _ _ _ _ _ _ _ _ _ asked guarded others ends =>
    exact Token.parted_behind [word] (Token.parted_append asked.fills.parted
      (Token.parted_append guarded.fills.parted (Token.parted_append others.parted ends.fills.parted)))
  | @loop word _ _ _ _ _ _ asked repeated =>
    exact Token.parted_behind [word] (Token.parted_append asked.fills.parted repeated.fills.parted)
  | @definition word defined opening closing tokens _ _ _ _ _ _ _ _ _ _ _ runs =>
    have inner := Token.parted_behind (tokens ++ [closing]) runs.fills.parted
    rw [List.append_assoc] at inner
    exact Token.parted_behind [word, defined, opening] inner

theorem Node.Sentence.ends {tokens : List Token} {node : Node} (form : Node.Sentence tokens node) :
    ∀ last ∈ node.bodies.getLast?, Span.ending? (Token.places tokens) = some last.span.stop := by
  intro last final
  cases form with
  | expression made =>
    obtain ⟨form, -⟩ := made
    rw [form.bodies_eq] at final
    cases final
  | pass | bare | result | deletion => cases final
  | @choice word asked _ _ _ _ _ _ _ _ _ _ guarded others ends =>
    have blocks := (guarded.fills_choice others ends).behind (word :: asked) (by simp)
    exact blocks.ends.trans (Block.ending?_map final)
  | @loop word asked _ _ _ _ _ _ repeated =>
    cases final
    exact (repeated.fills.behind (word :: asked) (by simp)).ends
  | @definition word defined opening closing tokens _ _ _ _ _ _ _ _ _ _ _ runs =>
    cases final
    have inner := runs.fills.behind (tokens ++ [closing]) (by simp)
    rw [List.append_assoc] at inner
    exact (inner.behind [word, defined, opening] (by simp)).ends

/-! From the tokens to the tree: what is made of tokens in order is nested. -/

namespace Node

mutual

theorem Made.nested : ∀ {tokens : List Token} {node : Node}, Made tokens node → Token.Ordered tokens → node.Nested
  | _, _, .of form extent, row => form.nested row (extent ▸ row.holds form.parted form.places_ne_nil)

/-- The stretch of the node itself may be larger than that of its form: parentheses are part of it. -/
theorem Formed.nested : ∀ {tokens : List Token} {node : Node}, Formed tokens node → Token.Ordered tokens →
    node.span.Holds node.pieces → node.Nested
  | _, _, .constant .., _, holds | _, _, .none .., _, holds | _, _, .identifier .., _, holds =>
    .of holds nofun nofun nofun
  | _, _, .group _ inner _, row, holds => inner.nested row.tail.left holds
  | _, _, .array _ each _, row, holds => .of holds nofun (each.nested row.tail.left) nofun
  | _, _, .unary _ _ made, row, holds => .of holds nofun (List.forall_mem_singleton.2 (made.nested row.tail)) nofun
  | _, _, .binary first _ _ second, row, holds =>
    .of holds nofun (List.forall_mem_cons.2 ⟨first.nested row.left,
      List.forall_mem_singleton.2 (second.nested row.right.tail)⟩) nofun
  | _, _, .assignment assigned _ given, row, holds =>
    .of holds nofun (List.forall_mem_cons.2 ⟨assigned.nested row.left,
      List.forall_mem_singleton.2 (given.nested row.right.tail)⟩) nofun
  | _, _, .call called _ each _, row, holds =>
    .of holds nofun (List.forall_mem_cons.2 ⟨called.nested row.left, each.nested row.right.tail.left⟩) nofun
  | _, _, .element root _ position _, row, holds =>
    .of holds nofun (List.forall_mem_cons.2 ⟨root.nested row.left,
      List.forall_mem_singleton.2 (position.nested row.right.tail.left)⟩) nofun
  | _, _, .slice root _ first _ last _, row, holds =>
    .of holds nofun (List.forall_mem_cons.2 ⟨root.nested row.left, List.forall_mem_cons.2
      ⟨first.nested row.right.tail.left,
        List.forall_mem_singleton.2 (last.nested row.right.tail.right.tail.left)⟩⟩) nofun

theorem Listed.nested : ∀ {tokens : List Token} {items : List Node}, Listed tokens items → Token.Ordered tokens →
    ∀ item ∈ items, item.Nested
  | _, _, .nil, _ => nofun
  | _, _, .last made, row => List.forall_mem_singleton.2 (made.nested row)
  | _, _, .separated made _ others, row =>
    List.forall_mem_cons.2 ⟨made.nested row.left, others.nested row.right.tail⟩

end

end Node

mutual

theorem Node.Stated.nested : ∀ {tokens : List Token} {node : Node}, Node.Stated tokens node →
    Token.Ordered tokens → node.Nested
  | _, _, .of form extent, row => by
    have whole : Node.Stated _ _ := .of form extent
    refine form.nested row (extent ▸ row.holds form.parted whole.places_ne_nil) fun last final => ?_
    rw [extent, Token.extent, Span.across, form.ends last final]
    rfl

theorem Node.Sentence.nested : ∀ {tokens : List Token} {node : Node}, Node.Sentence tokens node →
    Token.Ordered tokens → node.span.Holds node.pieces →
      (∀ last ∈ node.bodies.getLast?, node.span.stop = last.span.stop) → node.Nested
  | _, _, .expression made _, row, _, _ => made.nested row.left
  | _, _, .pass .., _, holds, closes | _, _, .bare .., _, holds, closes => .of holds closes nofun nofun
  | _, _, .result _ given _, row, holds, closes =>
    .of holds closes (List.forall_mem_singleton.2 (given.nested row.tail.left)) nofun
  | _, _, .deletion _ deleted _, row, holds, closes =>
    .of holds closes (List.forall_mem_singleton.2 (deleted.nested row.tail.left)) nofun
  | _, _, .choice _ asked guarded others ends, row, holds, closes => by
    have behind := row.tail.right
    obtain ⟨conditions, bodies⟩ := others.nested behind.right.left
    refine .of holds closes (List.forall_mem_cons.2 ⟨asked.nested row.tail.left, conditions⟩) ?_
    refine List.forall_mem_cons.2 ⟨guarded.nested behind.left, ?_⟩
    exact List.forall_mem_append.2 ⟨bodies, ends.nested behind.right.right⟩
  | _, _, .loop _ asked repeated, row, holds, closes =>
    .of holds closes (List.forall_mem_singleton.2 (asked.nested row.tail.left))
      (List.forall_mem_singleton.2 (repeated.nested row.tail.right))
  | _, _, .definition _ _ _ _ _ _ runs, row, holds, closes =>
    .of holds closes nofun (List.forall_mem_singleton.2 (runs.nested row.tail.tail.tail.right.tail))

theorem Node.AllStated.nested : ∀ {tokens : List Token} {nodes : List Node}, Node.AllStated tokens nodes →
    Token.Ordered tokens → ∀ node ∈ nodes, node.Nested
  | _, _, .nil, _ => nofun
  | _, _, .cons first others, row => List.forall_mem_cons.2 ⟨first.nested row.left, others.nested row.right⟩

theorem Block.Made.nested : ∀ {tokens : List Token} {block : Block}, Block.Made tokens block →
    Token.Ordered tokens → block.Nested
  | _, _, .of _ _ _ each some_ _ extent, row => by
    have inside := row.tail.tail.tail.left
    have holds := inside.holds each.fills.parted (each.places_ne_nil some_)
    exact .of (extent ▸ holds) (extent.trans (each.across some_).symm) (each.nested inside)

theorem Branch.AllMade.nested : ∀ {tokens : List Token} {branches : List Branch}, Branch.AllMade tokens branches →
    Token.Ordered tokens → (∀ node ∈ branches.map Branch.condition, node.Nested) ∧
      ∀ block ∈ branches.map Branch.body, block.Nested
  | _, _, .nil, _ => ⟨nofun, nofun⟩
  | _, _, .cons _ asked guarded others, row => by
    have behind := row.tail.right
    obtain ⟨conditions, bodies⟩ := others.nested behind.right
    exact ⟨List.forall_mem_cons.2 ⟨asked.nested row.tail.left, conditions⟩,
      List.forall_mem_cons.2 ⟨guarded.nested behind.left, bodies⟩⟩

theorem Block.Otherwise.nested : ∀ {tokens : List Token} {otherwise : Option Block},
    Block.Otherwise tokens otherwise → Token.Ordered tokens → ∀ block ∈ otherwise.toList, block.Nested
  | _, _, .none, _ => nofun
  | _, _, .some _ made, row => List.forall_mem_singleton.2 (made.nested row.tail)

end

/-! Whole programs. -/

namespace Parser

theorem states_program : Takes Outside (program .standard) fun found taken cursor =>
    (Node.StatesAll taken found.statements ∧
      found.span = spanOf found.statements (.point cursor.peek.span.start)) ∧
      cursor.peek.kind = .endOfProgram := by
  have counted : Takes Outside (get : Parser Cursor) fun value taken cursor =>
      taken = [] ∧ value = cursor ∧ Outside cursor := takes_look fun _ => rfl
  rw [program]
  refine counted.bind fun start taken => .given ?_
  rintro rfl
  refine (takes_skipNewlines.weaken fun _ ready => ready.2).bind fun _ taken => .given ?_
  rintro rfl
  refine (states_statements _ _ []).bind fun nodes taken => .given ?_
  rintro ⟨read, rfl, stated⟩
  refine takes_peek.bind fun last further => .given ?_
  rintro rfl
  refine takes_pure ?_
  rintro cursor ⟨rfl, ended, -⟩
  rw [List.append_nil, List.append_nil]
  exact ⟨⟨stated, rfl⟩, of_decide_eq_true ended⟩

end Parser

theorem Token.ordered_tokenize {source : String} {tokens : List Token} (read : tokenize source = .ok tokens) :
    Token.Ordered tokens := by
  have accounted : Accounted source.toList source.toList (Token.contentOf tokens).reverse :=
    Lexer.Accounts.tokens ⟨[], Scanner.stands_ofString source, .nothing _⟩ read
  constructor
  · exact List.pairwise_map.2 (List.pairwise_reverse.1 accounted.ordered)
  · intro span inside
    obtain ⟨token, member, rfl⟩ := List.mem_map.1 inside
    obtain ⟨before, word, after, written, -⟩ := accounted.written token (List.mem_reverse.2 member)
    exact written.start_before_stop

theorem stated_parse {source : String} {program : Block} (parsed : parse source = .ok program) :
    ∃ content ending, tokenize source = .ok (content ++ [ending]) ∧ ending.kind = .endOfProgram ∧
      Token.Ordered content ∧ Node.AllStated content program.statements ∧
      program.span = Parser.spanOf program.statements (.point ending.span.start) := by
  obtain ⟨tokens, read, made⟩ := except_bind_ok parsed
  obtain ⟨content, ending, rfl, kind, others⟩ := (lined_tokenize read).2
  have row := (Token.ordered_tokenize read).left
  have start := Cursor.ofTokens_ended kind others
  rw [parseTokens, start] at made
  cases reached : Parser.program .standard ⟨none, content, ending⟩ with
  | error fault =>
    rw [reached] at made
    cases made
  | ok pair =>
    obtain ⟨found, after⟩ := pair
    rw [reached] at made
    cases made
    have sound := Cursor.sound_tokenize read kind others
    obtain ⟨sound', taken, passes, ⟨stated, span⟩, ended⟩ := Parser.states_program _ _ _ sound rfl reached
    obtain ⟨rfl, rfl⟩ := passes.whole sound' ended
    exact ⟨content, ending, read, kind, row, stated (areProper_parse parsed) row, span⟩

theorem nested_parse {source : String} {program : Block} (parsed : parse source = .ok program) :
    ∀ node ∈ program.statements, node.Nested := by
  obtain ⟨content, ending, -, -, row, stated, -⟩ := stated_parse parsed
  exact stated.nested row

/-- A program is read from all of its tokens, and every node from some of them, one behind the other: parentheses
around an expression are among its tokens, and a statement with blocks ends with the last one in the last of them.
The stretch of a node begins where its first token begins and ends where its last one ends. It is not empty, and
those of its operands, its operator and its blocks lie inside it, one behind the other from left to right; those of
the statements of a block likewise. A program without statements stands at its end. -/
theorem parse_nested {source : String} {program : Block} (parsed : parse source = .ok program) :
    ∃ content ending, tokenize source = .ok (content ++ [ending]) ∧ ending.kind = .endOfProgram ∧
      Node.AllStated content program.statements ∧ (∀ node ∈ program.statements, node.Nested) ∧
      (program.statements ≠ [] → program.span = Token.extent content ∧ program.Nested) ∧
      (program.statements = [] → program.span = .point ending.span.start) := by
  obtain ⟨content, ending, read, kind, row, stated, span⟩ := stated_parse parsed
  refine ⟨content, ending, read, kind, stated, stated.nested row, fun some_ => ?_, fun none => ?_⟩
  · have whole : program.span = Token.extent content := by
      rw [span, stated.spanOf row some_]
    refine ⟨whole, .of ?_ (whole.trans (stated.across some_).symm) (stated.nested row)⟩
    rw [whole]
    exact row.holds stated.fills.parted (stated.places_ne_nil some_)
  · rw [span, none]
    rfl

def enclosing : String := "if (a):\n\tb = [(c + d), f(e)[1:2]]\nelse:\n\tdel g[0]"

theorem parse_nested_enclosing : ∃ program, parse enclosing = .ok program ∧ program.statements.length = 1 ∧
    program.span = ⟨⟨1, 0⟩, ⟨4, 9⟩⟩ ∧ program.Nested := by
  have made : ((parse enclosing).toOption.map fun program => (program.statements.length, program.span)) =
      some (1, ⟨⟨1, 0⟩, ⟨4, 9⟩⟩) := by decide +kernel
  obtain ⟨program, parsed, same⟩ := Option.map_eq_some_iff.1 made
  obtain ⟨count, place⟩ := Prod.mk.inj same
  have parsed := except_of_toOption parsed
  obtain ⟨_, _, _, _, _, _, nested, _⟩ := parse_nested parsed
  refine ⟨program, parsed, count, place, (nested fun none => ?_).2⟩
  rw [none] at count
  cases count

end TabScript
