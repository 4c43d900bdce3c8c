import TabScript.Proofs.Checks.Tree
import TabScript.Proofs.Nesting.Derivation
import TabScript.Proofs.Spelling.Statements

/-! What a reader takes are the tokens of the tree that it gives.

The stretch of a node is joined from those of its parts. If the tokens stand one behind the other, it is that of all
the tokens that were taken for the node. -/

set_option autoImplicit false

namespace TabScript

namespace Token

theorem text?_of_identifier {token : Token} (kind : token.kind = .identifier) (lexed : token.Lexed) :
    ∃ name, token.text? = some name := by
  obtain ⟨found, value, span⟩ := token
  obtain rfl : found = .identifier := kind
  rcases value with _ | (_ | _ | word)
  · exact lexed.elim
  · exact lexed.elim
  · exact lexed.elim
  · exact ⟨word, rfl⟩

end Token

namespace Node

def Makes (tokens : List Token) (node : Node) : Prop := Token.Ordered tokens → Made tokens node

def Continues (tokens : List Token) (left node : Node) : Prop :=
  ∀ before, Made before left → Token.Ordered (before ++ tokens) → Made (before ++ tokens) node

def Lists (close : String) (tokens : List Token) (closing : Token) (items : List Node) : Prop :=
  ∃ inner, tokens = inner ++ [closing] ∧ closing.is .punctuator close = true ∧
    (Token.Ordered inner → Listed inner items)

variable {tokens more : List Token} {node left right : Node} {token opening closing : Token}

theorem continues_refl (node : Node) : Continues [] node node := by
  intro before made _
  rwa [List.append_nil]

theorem Continues.trans {middle : Node} (first : Continues tokens left middle)
    (second : Continues more middle node) : Continues (tokens ++ more) left node := by
  intro before made row
  rw [← List.append_assoc] at row ⊢
  exact second _ (first before made row.left) row

theorem Makes.extend (first : Makes tokens left) (second : Continues more left node) :
    Makes (tokens ++ more) node :=
  fun row => second tokens (first row.left) row

/-! One way to begin an expression after the other. -/

theorem makes_atom (lexed : token.Lexed) (value : token.IsAtom) : Makes [token] (Parser.atom token) := by
  intro _
  obtain ⟨kind, constant, span⟩ := token
  refine ⟨?_, ?_⟩
  · rcases value with rfl | rfl | rfl | rfl
    · obtain ⟨name, text⟩ := Token.text?_of_identifier rfl lexed
      rcases constant with _ | (_ | _ | word)
      · exact lexed.elim
      · exact lexed.elim
      · exact lexed.elim
      · exact .identifier rfl rfl
    all_goals
      cases constant with
      | none => exact lexed.elim
      | some constant => exact .constant (by simp) rfl
  · rcases value with rfl | rfl | rfl | rfl
    all_goals
      rw [Token.extent_singleton rfl, Parser.atom]
      split <;> rfl

theorem makes_none (found : token.is .keyword "None" = true) : Makes [token] (.literal token.span none) :=
  fun _ => ⟨.none found, (Token.extent_singleton (Token.isContent_of_is rfl found)).symm⟩

/-- Two tokens around others take up what is across all of them. -/
theorem union_span {between : List Token} (first : token.kind.isContent = true)
    (last : closing.kind.isContent = true) (row : Token.Ordered (token :: (between ++ [closing]))) :
    token.span.union closing.span = Token.extent (token :: (between ++ [closing])) := by
  have whole : Token.Ordered ([token] ++ (between ++ [closing])) := row
  have joined := Token.union_extent whole (Token.places_ne_nil List.mem_cons_self first)
    (Token.places_ne_nil List.mem_cons_self last)
  rwa [Token.extent_singleton first, Token.extent_singleton last] at joined

theorem Makes.group (opens : opening.is .punctuator "(" = true) (inner : Makes tokens node)
    (closes : closing.is .punctuator ")" = true) :
    Makes (opening :: (tokens ++ [closing])) (node.withSpan (opening.span.union closing.span)) := by
  intro row
  obtain ⟨form, -⟩ := inner row.tail.left
  refine ⟨.group opens (form.withSpan _) closes, ?_⟩
  rw [span_withSpan]
  exact union_span (Token.isContent_of_is rfl opens) (Token.isContent_of_is rfl closes) row

theorem Lists.array {items : List Node} (opens : opening.is .punctuator "[" = true)
    (listed : Lists "]" tokens closing items) :
    Makes (opening :: tokens) (.array (opening.span.union closing.span) items) := by
  obtain ⟨inner, rfl, closes, each⟩ := listed
  intro row
  refine ⟨.array opens (each row.tail.left) closes, ?_⟩
  exact union_span (Token.isContent_of_is rfl opens) (Token.isContent_of_is rfl closes) row

theorem Makes.unary {operator : Operator} (mark : token.is .punctuator token.symbol = true)
    (known : Operator.unary? token.symbol = some operator) (operand : Makes tokens node) :
    Makes (token :: tokens) (.unary (token.span.union node.span) operator token.span node) := by
  intro row
  have made := operand row.tail
  exact ⟨.unary mark known made, made.fills.foldl_union (Token.isContent_of_is rfl mark) row⟩

/-! One way to continue an expression after the other. -/

/-- An operand and the one behind its operator take up what is across both. -/
theorem Made.union (first : Made tokens left) (second : Made more right)
    (row : Token.Ordered (tokens ++ token :: more)) :
    left.span.union right.span = Token.extent (tokens ++ token :: more) := by
  have whole : Token.Ordered (tokens ++ ([token] ++ more)) := row
  have joined := Token.union_extent whole first.places_ne_nil second.places_ne_nil
  obtain ⟨-, place⟩ := first
  obtain ⟨-, place'⟩ := second
  rwa [← place, ← place'] at joined

/-- An operand and what closes the brackets behind it take up what is across both. -/
theorem Made.union_span (first : Made tokens left) (closes : closing.kind.isContent = true)
    (row : Token.Ordered (tokens ++ (more ++ [closing]))) :
    left.span.union closing.span = Token.extent (tokens ++ (more ++ [closing])) := by
  have joined := Token.union_extent row first.places_ne_nil (Token.places_ne_nil List.mem_cons_self closes)
  obtain ⟨-, place⟩ := first
  rwa [← place, Token.extent_singleton closes] at joined

theorem Makes.binary {operator : Operator} (mark : token.is .punctuator token.symbol = true)
    (known : Operator.binary? token.symbol = some operator) (operand : Makes tokens right) :
    Continues (token :: tokens) left (.binary (left.span.union right.span) operator token.span left right) := by
  intro before first row
  have second := operand row.right.tail
  exact ⟨.binary first mark known second, first.union second row⟩

theorem Makes.assigned (mark : token.is .punctuator "=" = true) (value : Makes tokens right) :
    Continues (token :: tokens) left (.assignment (left.span.union right.span) left right) := by
  intro before first row
  have second := value row.right.tail
  exact ⟨.assignment first mark second, first.union second row⟩

theorem Lists.call {items : List Node} (opens : opening.is .punctuator "(" = true)
    (listed : Lists ")" tokens closing items) :
    Continues (opening :: tokens) left (.call (left.span.union closing.span) left items) := by
  obtain ⟨inner, rfl, closes, each⟩ := listed
  intro before first row
  have whole : Token.Ordered (before ++ (opening :: inner ++ [closing])) := row
  exact ⟨.call first opens (each row.right.tail.left) closes, first.union_span (Token.isContent_of_is rfl closes) whole⟩

theorem Makes.element (opens : opening.is .punctuator "[" = true) (index : Makes tokens node)
    (closes : closing.is .punctuator "]" = true) :
    Continues (opening :: (tokens ++ [closing])) left (.element (left.span.union closing.span) left node) := by
  intro before first row
  have whole : Token.Ordered (before ++ (opening :: tokens ++ [closing])) := row
  exact ⟨.element first opens (index row.right.tail.left) closes,
    first.union_span (Token.isContent_of_is rfl closes) whole⟩

theorem Makes.slice {colon : Token} {start stop : Node} (opens : opening.is .punctuator "[" = true)
    (first : Makes tokens start) (between : colon.is .punctuator ":" = true) (last : Makes more stop)
    (closes : closing.is .punctuator "]" = true) :
    Continues (opening :: (tokens ++ colon :: (more ++ [closing]))) left
      (.slice (left.span.union closing.span) left start stop) := by
  intro before root row
  have inner := row.right.tail
  have whole : Token.Ordered (before ++ (opening :: (tokens ++ colon :: more) ++ [closing])) := by
    simpa only [List.cons_append, List.append_assoc] using row
  refine ⟨.slice root opens (first inner.left) between (last inner.right.tail.left) closes, ?_⟩
  have joined := root.union_span (Token.isContent_of_is rfl closes) whole
  simp only [List.cons_append, List.append_assoc] at joined
  exact joined

/-! One part of a list after the other. -/

section

variable {close : String} {item : Node} {items : List Node}

theorem lists_nil (found : closing.is .punctuator close = true) : Lists close [closing] closing [] :=
  ⟨[], rfl, found, fun _ => .nil⟩

theorem Makes.last (made : Makes tokens item) (found : closing.is .punctuator close = true) :
    Lists close (tokens ++ [closing]) closing [item] :=
  ⟨tokens, rfl, found, fun row => .last (made row)⟩

theorem Makes.separated {comma : Token} (made : Makes tokens item) (found : comma.is .punctuator "," = true)
    (others : Lists close more closing items) :
    Lists close (tokens ++ comma :: more) closing (item :: items) := by
  obtain ⟨inner, rfl, closes, each⟩ := others
  refine ⟨tokens ++ comma :: inner, by simp, closes, fun row => ?_⟩
  exact .separated (made row.left) found (each row.right.tail)

end

end Node

/-! Statements, their blocks and their branches. -/

namespace Node

def States (tokens : List Token) (node : Node) : Prop :=
  node.IsProper → Token.Ordered tokens → Stated tokens node

def StatesAll (tokens : List Token) (nodes : List Node) : Prop :=
  AreProper nodes → Token.Ordered tokens → AllStated tokens nodes

end Node

def Block.Makes (tokens : List Token) (block : Block) : Prop :=
  block.IsFilled → Token.Ordered tokens → Block.Made tokens block

def Branch.MakesAll (tokens : List Token) (branches : List Branch) : Prop :=
  Branch.AreFilled branches → Token.Ordered tokens → Branch.AllMade tokens branches

def Block.MakesLast (tokens : List Token) (otherwise : Option Block) : Prop :=
  Block.IsFilled? otherwise → Token.Ordered tokens → Block.Otherwise tokens otherwise

namespace Node

section

variable {tokens : List Token} {node : Node} {word ending : Token} (ends : ending.kind = .newline)
include ends

theorem Makes.states (made : Makes tokens node) : States (tokens ++ [ending]) node := by
  intro _ row
  have one := made row.left
  refine ⟨.expression one ends, ?_⟩
  rw [Token.extent_layout (by rw [ends]; rfl)]
  obtain ⟨-, extent⟩ := one
  exact extent

theorem extent_word (content : word.kind.isContent = true) : word.span = Token.extent [word, ending] := by
  have layout : Token.extent ([word] ++ [ending]) = Token.extent [word] :=
    Token.extent_layout (by rw [ends]; rfl) [word]
  exact (Token.extent_singleton content).symm.trans layout.symm

theorem states_pass (found : word.is .keyword "pass" = true) : States [word, ending] (.pass word.span) :=
  fun _ _ => ⟨.pass found ends, extent_word ends (Token.isContent_of_is rfl found)⟩

theorem states_bare (found : word.is .keyword "return" = true) :
    States [word, ending] (.result word.span none) :=
  fun _ _ => ⟨.bare found ends, extent_word ends (Token.isContent_of_is rfl found)⟩

theorem Made.union_word (made : Made tokens node) (content : word.kind.isContent = true)
    (row : Token.Ordered (word :: (tokens ++ [ending]))) :
    word.span.union node.span = Token.extent (word :: (tokens ++ [ending])) := by
  have whole : Token.Ordered ((word :: tokens) ++ [ending]) := row
  have layout : Token.extent ((word :: tokens) ++ [ending]) = Token.extent (word :: tokens) :=
    Token.extent_layout (by rw [ends]; rfl) _
  exact (made.fills.foldl_union content whole.left).trans layout.symm

theorem Makes.result (found : word.is .keyword "return" = true) (value : Makes tokens node) :
    States (word :: (tokens ++ [ending])) (.result (word.span.union node.span) (some node)) := by
  intro _ row
  have given := value row.tail.left
  exact ⟨.result found given ends, given.union_word ends (Token.isContent_of_is rfl found) row⟩

theorem Makes.deletion (found : word.is .keyword "del" = true) (target : Makes tokens node) :
    States (word :: (tokens ++ [ending])) (.deletion (word.span.union node.span) node) := by
  intro _ row
  have deleted := target row.tail.left
  exact ⟨.deletion found deleted ends, deleted.union_word ends (Token.isContent_of_is rfl found) row⟩

end

variable {tokens inner further last : List Token} {condition : Node} {body : Block} {word : Token}

theorem Makes.loop (found : word.is .keyword "while" = true) (asked : Makes tokens condition)
    (repeated : Block.Makes inner body) :
    States (word :: (tokens ++ inner)) (.loop (word.span.union body.span) condition body) := by
  rintro ⟨-, filled⟩ row
  have block := repeated filled row.tail.right
  refine ⟨.loop found (asked row.tail.left) block, ?_⟩
  exact (block.fills.behind tokens (by simp)).foldl_union (Token.isContent_of_is rfl found) row

theorem Makes.choice {branches : List Branch} {otherwise : Option Block}
    (found : word.is .keyword "if" = true) (asked : Makes tokens condition) (guarded : Block.Makes inner body)
    (others : Branch.MakesAll further branches) (ends : Block.MakesLast last otherwise) :
    States (word :: (tokens ++ (inner ++ (further ++ last))))
      (.choice (((body :: branches.map Branch.body ++ otherwise.toList).map Block.span).foldl Span.union
        word.span) condition body branches otherwise) := by
  rintro ⟨-, filled, each, final⟩ row
  have behind := row.tail.right
  have block := guarded filled behind.left
  have more := others each behind.right.left
  have close := ends final behind.right.right
  refine ⟨.choice found (asked row.tail.left) block more close, ?_⟩
  have blocks := (block.fills_choice more close).behind tokens (by simp)
  exact blocks.foldl_union (Token.isContent_of_is rfl found) row

theorem States.definition {name : String} {names : List String} {defined opening closing : Token}
    (found : word.is .keyword "def" = true) (kind : defined.kind = .identifier)
    (text : defined.text? = some name) (opens : opening.is .punctuator "(" = true)
    (given : Token.Parameters tokens names) (closes : closing.is .punctuator ")" = true)
    (runs : Block.Makes inner body) :
    States (word :: defined :: opening :: (tokens ++ closing :: inner))
      (.definition (word.span.union body.span) name names body) := by
  rintro ⟨-, filled⟩ row
  have split : defined :: opening :: (tokens ++ closing :: inner) =
      (defined :: opening :: (tokens ++ [closing])) ++ inner := by simp
  have inside : Token.Ordered inner := by
    have behind := row.tail
    rw [split] at behind
    exact behind.right
  have block := runs filled inside
  refine ⟨.definition found kind text opens given closes block, ?_⟩
  have whole := block.fills.behind (defined :: opening :: (tokens ++ [closing])) (by simp)
  rw [← split] at whole
  exact whole.foldl_union (Token.isContent_of_is rfl found) row

theorem statesAll_nil : StatesAll [] [] := fun _ _ => .nil

theorem States.cons {more : List Token} {node : Node} {nodes : List Node} (first : States tokens node)
    (others : StatesAll more nodes) : StatesAll (tokens ++ more) (node :: nodes) := by
  rintro ⟨proper, each⟩ row
  exact .cons (first proper row.left) (others each row.right)

end Node

theorem Node.AllStated.spanOf {tokens : List Token} {nodes : List Node} (stated : Node.AllStated tokens nodes)
    (row : Token.Ordered tokens) (some_ : nodes ≠ []) {otherwise : Span} :
    Parser.spanOf nodes otherwise = Token.extent tokens := by
  have parts := stated.fills.parted.inOrder row
  rw [← stated.across some_]
  cases nodes with
  | nil => exact absurd rfl some_
  | cons first others => exact parts.foldl_union

theorem Node.StatesAll.block {tokens : List Token} {nodes : List Node} {colon newline indent dedent : Token}
    (opens : colon.is .punctuator ":" = true) (line : newline.kind = .newline)
    (deeper : indent.kind = .indent) (stated : Node.StatesAll tokens nodes) (closes : dedent.kind = .dedent) :
    Block.Makes (colon :: newline :: indent :: (tokens ++ [dedent]))
      (.of (Parser.spanOf nodes dedent.span) nodes) := by
  rintro ⟨some_, proper⟩ row
  have inside : Token.Ordered tokens := row.tail.tail.tail.left
  have each := stated proper inside
  exact .of opens line deeper each some_ closes (each.spanOf inside some_)

theorem Branch.makesAll_nil : Branch.MakesAll [] [] := fun _ _ => .nil

theorem Node.Makes.branch {tokens inner more : List Token} {condition : Node} {body : Block} {word : Token}
    {branches : List Branch} (found : word.is .keyword "elif" = true) (asked : Node.Makes tokens condition)
    (guarded : Block.Makes inner body) (others : Branch.MakesAll more branches) :
    Branch.MakesAll (word :: (tokens ++ (inner ++ more))) (.of condition body :: branches) := by
  rintro ⟨⟨-, filled⟩, each⟩ row
  have behind := row.tail.right
  exact .cons found (asked row.tail.left) (guarded filled behind.left) (others each behind.right)

theorem Block.makesLast_none : Block.MakesLast [] none := fun _ _ => .none

theorem Block.Makes.otherwise {tokens : List Token} {block : Block} {word : Token}
    (found : word.is .keyword "else" = true) (made : Block.Makes tokens block) :
    Block.MakesLast (word :: tokens) (some block) :=
  fun filled row => .some found (made filled row.tail)

end TabScript
