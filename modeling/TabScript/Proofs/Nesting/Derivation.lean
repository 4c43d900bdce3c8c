import TabScript.Proofs.Lossless.Accounted
import TabScript.Proofs.Nesting.Stretches
import TabScript.Proofs.Spelling.Essential

/-! The texts of trees, with the stretches that they take up.

A tree is read from tokens, and every node in it from some of them. The stretch of the node is where these stand: it
begins with the first of them and ends with the last one, where the tokens that stand for layout do not count. The
parentheses around an expression are among its tokens, and a statement with blocks ends with the last statement in
the last of them. -/

set_option autoImplicit false

namespace TabScript

namespace Token

def places (tokens : List Token) : List Span := (contentOf tokens).map span

/-- From where the first token with content begins to where the last one ends. -/
def extent (tokens : List Token) : Span := .across (places tokens)

inductive Parameters : List Token → List String → Prop where
  | nil : Parameters [] []
  | last {word : Token} {name : String} (kind : word.kind = .identifier) (text : word.text? = some name) :
    Parameters [word] [name]
  | separated {word comma : Token} {tokens : List Token} {name : String} {names : List String}
    (kind : word.kind = .identifier) (text : word.text? = some name)
    (between : comma.is .punctuator "," = true) (others : Parameters tokens names) :
    Parameters (word :: comma :: tokens) (name :: names)

end Token

mutual

inductive Node.Made : List Token → Node → Prop where
  | of {tokens : List Token} {node : Node} (form : Node.Formed tokens node)
    (extent : node.span = Token.extent tokens) : Made tokens node

/-- The tokens of an expression, whatever stretch it takes up itself: its parts take up those of their tokens, and
its operator that of its own. -/
inductive Node.Formed : List Token → Node → Prop where
  | constant {token : Token} {value : Literal} {span : Span}
    (kind : token.kind = .boolean ∨ token.kind = .number ∨ token.kind = .text)
    (known : token.value = some value) : Formed [token] (.literal span (some value))
  | none {token : Token} {span : Span} (word : token.is .keyword "None" = true) :
    Formed [token] (.literal span none)
  | identifier {token : Token} {name : String} {span : Span} (kind : token.kind = .identifier)
    (text : token.text? = some name) : Formed [token] (.identifier span name)
  | group {opening closing : Token} {tokens : List Token} {node : Node}
    (opens : opening.is .punctuator "(" = true) (inner : Formed tokens node)
    (closes : closing.is .punctuator ")" = true) : Formed (opening :: (tokens ++ [closing])) node
  | array {opening closing : Token} {tokens : List Token} {items : List Node} {span : Span}
    (opens : opening.is .punctuator "[" = true) (each : Node.Listed tokens items)
    (closes : closing.is .punctuator "]" = true) :
    Formed (opening :: (tokens ++ [closing])) (.array span items)
  | unary {sign : Token} {tokens : List Token} {operator : Operator} {operand : Node} {span : Span}
    (mark : sign.is .punctuator sign.symbol = true) (known : Operator.unary? sign.symbol = some operator)
    (made : Made tokens operand) : Formed (sign :: tokens) (.unary span operator sign.span operand)
  | binary {before tokens : List Token} {sign : Token} {operator : Operator} {left right : Node} {span : Span}
    (first : Made before left) (mark : sign.is .punctuator sign.symbol = true)
    (known : Operator.binary? sign.symbol = some operator) (second : Made tokens right) :
    Formed (before ++ sign :: tokens) (.binary span operator sign.span left right)
  | assignment {before tokens : List Token} {sign : Token} {target value : Node} {span : Span}
    (assigned : Made before target) (mark : sign.is .punctuator "=" = true) (given : Made tokens value) :
    Formed (before ++ sign :: tokens) (.assignment span target value)
  | call {before tokens : List Token} {opening closing : Token} {callee : Node} {arguments : List Node}
    {span : Span} (called : Made before callee) (opens : opening.is .punctuator "(" = true)
    (each : Node.Listed tokens arguments) (closes : closing.is .punctuator ")" = true) :
    Formed (before ++ opening :: (tokens ++ [closing])) (.call span callee arguments)
  | element {before tokens : List Token} {opening closing : Token} {target index : Node} {span : Span}
    (root : Made before target) (opens : opening.is .punctuator "[" = true) (position : Made tokens index)
    (closes : closing.is .punctuator "]" = true) :
    Formed (before ++ opening :: (tokens ++ [closing])) (.element span target index)
  | slice {before tokens more : List Token} {opening colon closing : Token} {target start stop : Node}
    {span : Span} (root : Made before target) (opens : opening.is .punctuator "[" = true)
    (first : Made tokens start) (between : colon.is .punctuator ":" = true) (last : Made more stop)
    (closes : closing.is .punctuator "]" = true) :
    Formed (before ++ opening :: (tokens ++ colon :: (more ++ [closing]))) (.slice span target start stop)

inductive Node.Listed : List Token → List Node → Prop where
  | nil : Listed [] []
  | last {tokens : List Token} {item : Node} (made : Made tokens item) : Listed tokens [item]
  | separated {tokens more : List Token} {comma : Token} {item : Node} {items : List Node}
    (made : Made tokens item) (between : comma.is .punctuator "," = true) (others : Listed more items) :
    Listed (tokens ++ comma :: more) (item :: items)

end

mutual

inductive Node.Stated : List Token → Node → Prop where
  | of {tokens : List Token} {node : Node} (form : Node.Sentence tokens node)
    (extent : node.span = Token.extent tokens) : Node.Stated tokens node

inductive Node.Sentence : List Token → Node → Prop where
  | expression {tokens : List Token} {ending : Token} {node : Node} (made : Node.Made tokens node)
    (ends : ending.kind = .newline) : Node.Sentence (tokens ++ [ending]) node
  | pass {word ending : Token} {span : Span} (first : word.is .keyword "pass" = true)
    (ends : ending.kind = .newline) : Node.Sentence [word, ending] (.pass span)
  | bare {word ending : Token} {span : Span} (first : word.is .keyword "return" = true)
    (ends : ending.kind = .newline) : Node.Sentence [word, ending] (.result span none)
  | result {word ending : Token} {tokens : List Token} {value : Node} {span : Span}
    (first : word.is .keyword "return" = true) (given : Node.Made tokens value) (ends : ending.kind = .newline) :
    Node.Sentence (word :: (tokens ++ [ending])) (.result span (some value))
  | deletion {word ending : Token} {tokens : List Token} {target : Node} {span : Span}
    (first : word.is .keyword "del" = true) (deleted : Node.Made tokens target)
    (ends : ending.kind = .newline) : Node.Sentence (word :: (tokens ++ [ending])) (.deletion span target)
  | choice {word : Token} {tokens inner further last : List Token} {condition : Node} {body : Block}
    {branches : List Branch} {otherwise : Option Block} {span : Span} (first : word.is .keyword "if" = true)
    (asked : Node.Made tokens condition) (guarded : Block.Made inner body)
    (others : Branch.AllMade further branches) (ends : Block.Otherwise last otherwise) :
    Node.Sentence (word :: (tokens ++ (inner ++ (further ++ last)))) (.choice span condition body branches otherwise)
  | loop {word : Token} {tokens inner : List Token} {condition : Node} {body : Block} {span : Span}
    (first : word.is .keyword "while" = true) (asked : Node.Made tokens condition)
    (repeated : Block.Made inner body) : Node.Sentence (word :: (tokens ++ inner)) (.loop span condition body)
  | definition {word defined opening closing : Token} {tokens inner : List Token} {name : String}
    {names : List String} {body : Block} {span : Span} (first : word.is .keyword "def" = true)
    (kind : defined.kind = .identifier) (text : defined.text? = some name)
    (opens : opening.is .punctuator "(" = true) (given : Token.Parameters tokens names)
    (closes : closing.is .punctuator ")" = true) (runs : Block.Made inner body) :
    Node.Sentence (word :: defined :: opening :: (tokens ++ closing :: inner)) (.definition span name names body)

inductive Node.AllStated : List Token → List Node → Prop where
  | nil : Node.AllStated [] []
  | cons {tokens more : List Token} {node : Node} {nodes : List Node} (first : Node.Stated tokens node)
    (others : Node.AllStated more nodes) : Node.AllStated (tokens ++ more) (node :: nodes)

inductive Block.Made : List Token → Block → Prop where
  | of {colon newline indent dedent : Token} {tokens : List Token} {span : Span} {nodes : List Node}
    (opens : colon.is .punctuator ":" = true) (line : newline.kind = .newline) (deeper : indent.kind = .indent)
    (each : Node.AllStated tokens nodes) (some_ : nodes ≠ []) (closes : dedent.kind = .dedent)
    (extent : span = Token.extent tokens) :
    Block.Made (colon :: newline :: indent :: (tokens ++ [dedent])) (.of span nodes)

inductive Branch.AllMade : List Token → List Branch → Prop where
  | nil : Branch.AllMade [] []
  | cons {word : Token} {tokens inner more : List Token} {condition : Node} {body : Block}
    {branches : List Branch} (first : word.is .keyword "elif" = true) (asked : Node.Made tokens condition)
    (guarded : Block.Made inner body) (others : Branch.AllMade more branches) :
    Branch.AllMade (word :: (tokens ++ (inner ++ more))) (.of condition body :: branches)

inductive Block.Otherwise : List Token → Option Block → Prop where
  | none : Block.Otherwise [] none
  | some {word : Token} {tokens : List Token} {block : Block} (first : word.is .keyword "else" = true)
    (made : Block.Made tokens block) : Block.Otherwise (word :: tokens) (some block)

end

namespace Token

variable {token : Token} {tokens others : List Token}

def Ordered (tokens : List Token) : Prop := Span.InOrder (places tokens)

theorem places_append (tokens others : List Token) : places (tokens ++ others) = places tokens ++ places others := by
  rw [places, contentOf_append, List.map_append]
  rfl

theorem places_cons (content : token.kind.isContent = true) (tokens : List Token) :
    places (token :: tokens) = token.span :: places tokens := by
  rw [places, contentOf_cons content]
  rfl

theorem places_layout (layout : token.kind.isContent = false) (tokens : List Token) :
    places (token :: tokens) = places tokens := by
  rw [places, contentOf, List.filter_cons_of_neg (by simp [layout])]
  rfl

theorem extent_singleton (content : token.kind.isContent = true) : extent [token] = token.span := by
  rw [extent, places_cons content]
  rfl

theorem extent_layout (layout : token.kind.isContent = false) (tokens : List Token) :
    extent (tokens ++ [token]) = extent tokens := by
  have none : places [token] = [] := places_layout layout []
  rw [extent, places_append, none, List.append_nil, extent]

theorem isContent_of_is {kind : TokenKind} {characters : String} (content : kind.isContent = true)
    (found : token.is kind characters = true) : token.kind.isContent = true := by
  rw [(is_iff.1 found).1, content]

theorem places_ne_nil (inside : token ∈ tokens) (content : token.kind.isContent = true) : places tokens ≠ [] := by
  have member : token ∈ contentOf tokens := List.mem_filter.2 ⟨inside, content⟩
  exact List.ne_nil_of_mem (List.mem_map_of_mem member)

theorem Ordered.left (row : Ordered (tokens ++ others)) : Ordered tokens := by
  rw [Ordered, places_append] at row
  exact (Span.InOrder.append_iff.1 row).1

theorem Ordered.right (row : Ordered (tokens ++ others)) : Ordered others := by
  rw [Ordered, places_append] at row
  exact (Span.InOrder.append_iff.1 row).2.1

theorem Ordered.tail (row : Ordered (token :: tokens)) : Ordered tokens := by
  have whole : Ordered ([token] ++ tokens) := row
  exact whole.right

theorem union_extent {between : List Token} (row : Ordered (tokens ++ (between ++ others)))
    (first : places tokens ≠ []) (last : places others ≠ []) :
    (extent tokens).union (extent others) = extent (tokens ++ (between ++ others)) := by
  rw [Ordered, places_append, places_append] at row
  rw [extent, extent, row.union_across first last, extent, places_append, places_append]

end Token

namespace Node

variable {tokens : List Token} {node : Node}

theorem Formed.places_ne_nil (form : Formed tokens node) : Token.places tokens ≠ [] := by
  cases form with
  | constant kind =>
    apply Token.places_ne_nil List.mem_cons_self
    rcases kind with kind | kind | kind <;> rw [kind] <;> rfl
  | identifier kind =>
    apply Token.places_ne_nil List.mem_cons_self
    rw [kind]
    rfl
  | none found | group found | array found | unary found =>
    exact Token.places_ne_nil List.mem_cons_self (Token.isContent_of_is rfl found)
  | binary _ found | assignment _ found | call _ found | element _ found | slice _ found =>
    exact Token.places_ne_nil (List.mem_append_right _ List.mem_cons_self) (Token.isContent_of_is rfl found)

theorem Made.places_ne_nil (made : Made tokens node) : Token.places tokens ≠ [] := by
  obtain ⟨form, -⟩ := made
  exact form.places_ne_nil

theorem Formed.withSpan (span : Span) : ∀ {tokens : List Token} {node : Node}, Formed tokens node →
    Formed tokens (node.withSpan span)
  | _, _, .constant kind known => .constant kind known
  | _, _, .none word => .none word
  | _, _, .identifier kind text => .identifier kind text
  | _, _, .group opens inner closes => .group opens (inner.withSpan span) closes
  | _, _, .array opens each closes => .array opens each closes
  | _, _, .unary mark known made => .unary mark known made
  | _, _, .binary first mark known second => .binary first mark known second
  | _, _, .assignment assigned mark given => .assignment assigned mark given
  | _, _, .call called opens each closes => .call called opens each closes
  | _, _, .element root opens position closes => .element root opens position closes
  | _, _, .slice root opens first between last closes => .slice root opens first between last closes

end Node

/-! Runs of tokens for some of their parts, up to the end of the last part. -/

namespace Token

structure Fills (tokens : List Token) (spans : List Span) : Prop where
  parted : Span.Parted (places tokens) spans
  ends : Span.ending? (places tokens) = Span.ending? spans

variable {token : Token} {tokens others : List Token} {spans further : List Span}

theorem fills_nil : Fills [] [] := ⟨.nil, rfl⟩

theorem fills_extent (some_ : places tokens ≠ []) : Fills tokens [extent tokens] :=
  ⟨.whole some_, Span.ending?_eq_across some_⟩

theorem Fills.append (first : Fills tokens spans) (second : Fills others further) :
    Fills (tokens ++ others) (spans ++ further) := by
  constructor
  · rw [places_append]
    exact first.parted.append second.parted
  · rw [places_append, Span.ending?_append, Span.ending?_append, first.ends, second.ends]

theorem Fills.behind (before : List Token) (fills : Fills tokens spans) (some_ : spans ≠ []) :
    Fills (before ++ tokens) spans := by
  constructor
  · rw [places_append]
    exact (Span.Parted.none (places before)).append fills.parted
  · rw [places_append, Span.ending?_append, fills.ends, Span.ending?_eq_across some_]
    rfl

theorem Fills.foldl_union (fills : Fills tokens spans) (content : token.kind.isContent = true)
    (row : Ordered (token :: tokens)) : spans.foldl Span.union token.span = extent (token :: tokens) := by
  rw [Ordered, places_cons content] at row
  rw [(fills.parted.one.inOrder row).foldl_union, extent, places_cons content]
  apply Span.across_congr
  · rfl
  · rw [Span.ending?_cons, Span.ending?_cons, fills.ends]

end Token

theorem Node.Made.fills {tokens : List Token} {node : Node} (made : Node.Made tokens node) :
    Token.Fills tokens [node.span] := by
  have fills := Token.fills_extent made.places_ne_nil
  obtain ⟨-, extent⟩ := made
  rwa [← extent] at fills

theorem Node.Stated.places_ne_nil {tokens : List Token} {node : Node} (stated : Node.Stated tokens node) :
    Token.places tokens ≠ [] := by
  obtain ⟨form, -⟩ := stated
  cases form with
  | expression made =>
    rw [Token.places_append]
    exact List.append_ne_nil_of_left_ne_nil made.places_ne_nil _
  | pass found | bare found | result found | deletion found | choice found | loop found | definition found =>
    exact Token.places_ne_nil List.mem_cons_self (Token.isContent_of_is rfl found)

theorem Node.Stated.fills {tokens : List Token} {node : Node} (stated : Node.Stated tokens node) :
    Token.Fills tokens [node.span] := by
  have fills := Token.fills_extent stated.places_ne_nil
  obtain ⟨-, extent⟩ := stated
  rwa [← extent] at fills

theorem Node.AllStated.fills : ∀ {tokens : List Token} {nodes : List Node}, Node.AllStated tokens nodes →
    Token.Fills tokens (nodes.map Node.span)
  | _, _, .nil => Token.fills_nil
  | _, _, .cons first others => first.fills.append others.fills

theorem Node.AllStated.across {tokens : List Token} {nodes : List Node} (stated : Node.AllStated tokens nodes)
    (some_ : nodes ≠ []) : Span.across (nodes.map Node.span) = Token.extent tokens := by
  apply Span.across_congr _ stated.fills.ends.symm
  cases stated with
  | nil => exact absurd rfl some_
  | cons first others =>
    -- the first statement begins with the first token that has content
    have begins := first.places_ne_nil
    obtain ⟨-, extent⟩ := first
    rw [Token.places_append, Span.beginning?_append, List.map_cons, Span.beginning?_cons, extent]
    obtain ⟨head, rest, split⟩ := List.exists_cons_of_ne_nil begins
    rw [Token.extent, split]
    rfl

theorem Node.AllStated.places_ne_nil {tokens : List Token} {nodes : List Node}
    (stated : Node.AllStated tokens nodes) (some_ : nodes ≠ []) : Token.places tokens ≠ [] := by
  cases stated with
  | nil => exact absurd rfl some_
  | cons first others =>
    rw [Token.places_append]
    exact List.append_ne_nil_of_left_ne_nil first.places_ne_nil _

theorem Block.Made.fills {tokens : List Token} {block : Block} (made : Block.Made tokens block) :
    Token.Fills tokens [block.span] := by
  obtain ⟨opens, line, deeper, each, some_, closes, rfl⟩ := made
  rename_i colon newline indent dedent inner nodes
  -- besides those of its statements only the colon has content
  have layout : Token.places (colon :: newline :: indent :: (inner ++ [dedent])) =
      Token.places ([colon] ++ inner) := by
    have last : Token.places [dedent] = [] := Token.places_layout (by rw [closes]; rfl) []
    rw [Token.places_cons (Token.isContent_of_is rfl opens), Token.places_layout (by rw [line]; rfl),
      Token.places_layout (by rw [deeper]; rfl), Token.places_append, last, List.append_nil,
      List.singleton_append, Token.places_cons (Token.isContent_of_is rfl opens)]
  have inside := (Token.fills_extent (each.places_ne_nil some_)).behind [colon] (by simp)
  exact ⟨layout ▸ inside.parted, layout ▸ inside.ends⟩

theorem Branch.AllMade.fills : ∀ {tokens : List Token} {branches : List Branch},
    Branch.AllMade tokens branches → Token.Fills tokens (branches.map fun branch => branch.body.span)
  | _, _, .nil => Token.fills_nil
  | _, _, @Branch.AllMade.cons word tokens _ _ _ _ _ _ _ guarded others => by
    have body := guarded.fills.append others.fills
    rw [← List.cons_append]
    exact body.behind (word :: tokens) (by simp)

theorem Block.Otherwise.fills {tokens : List Token} {otherwise : Option Block}
    (ends : Block.Otherwise tokens otherwise) : Token.Fills tokens (otherwise.toList.map Block.span) := by
  cases ends with
  | none => exact Token.fills_nil
  | @some word _ _ _ made => exact made.fills.behind [word] (by simp)

theorem Block.Made.fills_choice {inner further last : List Token} {body : Block} {branches : List Branch}
    {otherwise : Option Block} (guarded : Block.Made inner body) (others : Branch.AllMade further branches)
    (ends : Block.Otherwise last otherwise) : Token.Fills (inner ++ (further ++ last))
      ((body :: branches.map Branch.body ++ otherwise.toList).map Block.span) := by
  have blocks := guarded.fills.append (others.fills.append ends.fills)
  rw [List.map_append, List.map_cons, List.map_map]
  exact blocks

end TabScript
