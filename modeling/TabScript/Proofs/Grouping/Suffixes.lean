import TabScript.Proofs.Grouping.Climbed
import TabScript.Proofs.Grouping.Phrases
import TabScript.Proofs.Printing.RoundTrip

/-! To what the suffixes behind an operator belong.

An operator takes as its left operand what binds at least as strongly at the end of the text in front of it; all
that binds more weakly stays around it. Its right operand is what binds more strongly than it. Calls and subscripts
bind more strongly than every operator but the power, and so they belong to the operand that they follow. The
power is as strong as they are, and what is equally strong groups to the left. -/

set_option autoImplicit false

namespace TabScript

open Token (mark name keyword layout pull)

/-- An operator in front of the last operand of a text, with its left operand if it has one. -/
structure Node.Frame where
  operator : Operator
  left : Option Node

namespace Node

def Frame.around (frame : Frame) (node : Node) : Node :=
  match frame.left with
  | none => .unary default frame.operator default node
  | some left => .binary default frame.operator default left node

def within (frames : List Frame) (node : Node) : Node :=
  frames.foldr Frame.around node

end Node

theorem Operand.listed_all {good : Token → Prop} (sign : good (mark ",")) {items : List Operand} (comma : Bool)
    (all : ∀ item ∈ items, ∀ word ∈ item.words, good word) : ∀ word ∈ listed comma items, good word := by
  fun_induction listed comma items with
  | case1 => exact fun _ inside => nomatch inside
  | case2 item =>
    refine List.forall_mem_append.2 ⟨all item List.mem_cons_self, ?_⟩
    split
    · exact List.forall_mem_singleton.2 sign
    · exact fun _ inside => nomatch inside
  | case3 item others _ ih =>
    obtain ⟨first, all⟩ := List.forall_mem_cons.1 all
    exact List.forall_mem_append.2 ⟨first, List.forall_mem_cons.2 ⟨sign, ih all⟩⟩

/-- Of a text, an operator behind it takes what stands last. Whatever the last part becomes a part of can stand in
its place, inside of all that was around it. -/
structure Phrase.Lends (power front back : Nat) (words : List Token) (node : Node) (frames : List Node.Frame)
    (first : List Token) (last : Operand) : Prop where
  split : first ++ last.words = words
  whole : Node.within frames last.node = node
  all : frames = [] ↔ power ≤ back
  phrase : last.IsPhrase
  fits : power ≤ last.back
  put : ∀ other : Operand, other.IsPhrase → min last.front power ≤ other.front →
    ∃ front' back', Phrase front' back' (first ++ other.words) (Node.within frames other.node) ∧
      (frames = [] → min front power ≤ front') ∧ (frames ≠ [] → front' = front)

namespace Phrase

variable {power front back : Nat} {words : List Token} {node : Node}

theorem lends_all (phrase : Phrase front back words node) (strong : power ≤ back) :
    Lends power front back words node [] [] ⟨front, back, words, node⟩ where
  split := rfl
  whole := rfl
  all := iff_of_true rfl strong
  phrase := phrase
  fits := strong
  put other whole enough := ⟨other.front, other.back, whole, fun _ => enough, fun some => absurd rfl some⟩

/-- Inside of an operator that is weaker, what is lent is part of an operand, and it stays strong enough there. -/
theorem Lends.inside {frames : List Node.Frame} {first : List Token} {last : Operand} {strength front' : Nat}
    (lends : Lends power front back words node frames first last) (start : List Token) (frame : Node.Frame)
    (weaker : ¬power ≤ min strength back) (binds : strength < front)
    (rebuild : ∀ {front₁ back₁ : Nat} {words₁ : List Token} {node₁ : Node},
      Phrase front₁ back₁ words₁ node₁ → strength < front₁ →
        ∃ back₂, Phrase front' back₂ (start ++ words₁) (frame.around node₁)) :
    Lends power front' (min strength back) (start ++ words) (frame.around node) (frame :: frames) (start ++ first)
      last where
  split := by rw [List.append_assoc, lends.split]
  whole := by rw [← lends.whole]; rfl
  all := iff_of_false (List.cons_ne_nil _ _) weaker
  phrase := lends.phrase
  fits := lends.fits
  put other whole enough := by
    obtain ⟨front₁, back₁, placed, alone, among⟩ := lends.put other whole enough
    -- if all of the operand is taken, the operator that takes it is stronger than this one
    have tight : strength < front₁ := by
      by_cases none_ : frames = []
      · have strong := lends.all.1 none_
        have least := alone none_
        omega
      · rwa [among none_]
    obtain ⟨back₂, rebuilt⟩ := rebuild placed tight
    rw [← List.append_assoc] at rebuilt
    exact ⟨front', back₂, rebuilt, fun nil => (List.cons_ne_nil _ _ nil).elim, fun _ => rfl⟩

theorem lends (phrase : Phrase front back words node) (known : power ≤ Precedence.suffix) :
    ∃ frames first last, Lends power front back words node frames first last := by
  have closed : power ≤ Precedence.closed := Nat.le_succ_of_le known
  -- only an operator leaves its last operand to another one behind it
  induction phrase with
  | atom value => exact ⟨_, _, _, lends_all (.atom value) closed⟩
  | none => exact ⟨_, _, _, lends_all .none closed⟩
  | group inner => exact ⟨_, _, _, lends_all (.group inner) closed⟩
  | array comma all => exact ⟨_, _, _, lends_all (.array comma all) closed⟩
  | suffix target fits suffix all => exact ⟨_, _, _, lends_all (.suffix target fits suffix all) closed⟩
  | @unary front back words node symbol operator sign operand binds ih =>
    by_cases strong : power ≤ min Precedence.unary back
    · exact ⟨_, _, _, lends_all (.unary sign operand binds) strong⟩
    · obtain ⟨frames, first, last, inner⟩ := ih
      exact ⟨_, _, _, inner.inside [mark symbol] ⟨operator, Option.none⟩ strong binds
        fun placed tight => ⟨_, .unary sign placed tight⟩⟩
  | @binary front back front' back' words words' left right symbol operator sign first fits second binds _ ih =>
    by_cases strong : power ≤ min (Grammar.standard.precedence symbol) back'
    · exact ⟨_, _, _, lends_all (.binary sign first fits second binds) strong⟩
    · obtain ⟨frames, start, last, inner⟩ := ih
      have whole := inner.inside (words ++ [mark symbol]) ⟨operator, some left⟩ strong binds
        fun placed tight => ⟨_, by rw [List.append_assoc]; exact .binary sign first fits placed tight⟩
      rw [List.append_assoc] at whole
      exact ⟨_, _, _, whole⟩

theorem kind_ne (phrase : Phrase front back words node) : ∀ word ∈ words, word.kind ≠ .endOfProgram := by
  have sign : ∀ symbol, (mark symbol).kind ≠ .endOfProgram := fun _ => nofun
  have enclosed : ∀ (opening closing : String) {words : List Token}, (∀ word ∈ words, word.kind ≠ .endOfProgram) →
      ∀ word ∈ mark opening :: (words ++ [mark closing]), word.kind ≠ .endOfProgram := fun _ _ _ all =>
    List.forall_mem_cons.2 ⟨sign _, List.forall_mem_append.2 ⟨all, List.forall_mem_singleton.2 (sign _)⟩⟩
  induction phrase with
  | @atom token value =>
    refine List.forall_mem_singleton.2 fun kind => ?_
    have kind : token.kind = .endOfProgram := kind
    rcases value with same | same | same | same <;> cases kind.symm.trans same
  | none => exact List.forall_mem_singleton.2 nofun
  | group _ ih => exact enclosed "(" ")" ih
  | array comma _ ih => exact enclosed "[" "]" (Operand.listed_all (sign _) comma ih)
  | unary _ _ _ ih => exact List.forall_mem_cons.2 ⟨sign _, ih⟩
  | binary _ _ _ _ _ ih ih' => exact List.forall_mem_append.2 ⟨ih, List.forall_mem_cons.2 ⟨sign _, ih'⟩⟩
  | suffix _ _ suffix _ ih ih' =>
    refine List.forall_mem_append.2 ⟨ih, ?_⟩
    cases suffix with
    | call arguments comma => exact enclosed "(" ")" (Operand.listed_all (sign _) comma ih')
    | element index => exact enclosed "[" "]" (ih' index List.mem_cons_self)
    | slice start stop =>
      have last := ih' stop (List.mem_cons_of_mem _ List.mem_cons_self)
      exact List.forall_mem_cons.2
        ⟨sign _, List.forall_mem_append.2 ⟨ih' start List.mem_cons_self, enclosed ":" "]" last⟩⟩

end Phrase

/-- The words are an expression that stands for the tree: alone on a line they are a program of it, and in every
place where an expression can stand it is read from them. -/
structure Token.Means (words : List Token) (node : Node) : Prop where
  program : ∀ tokens : List Token, tokens.map bare = words ++ [layout .newline, layout .endOfProgram] →
    ∃ found, parseTokens .standard tokens = .ok (.of found.span [found]) ∧ found.bare = node.bare
  inside : ∀ {budget least : Nat} {rest : List Token}, 2 * words.length + 1 ≤ budget →
    least ≤ Precedence.assignment → pull rest = 0 →
      (Parser.expression .standard budget least).Reads words rest fun found => found.bare = node.bare

theorem Phrase.means {front back : Nat} {words : List Token} {node : Node}
    (phrase : Phrase front back words node) : Token.Means words node where
  program := by
    intro tokens same
    have inside : ∀ word ∈ words ++ [layout .newline], word.kind ≠ .endOfProgram :=
      List.forall_mem_append.2 ⟨phrase.kind_ne, List.forall_mem_singleton.2 nofun⟩
    have ahead : (Cursor.ofTokens tokens).Ahead (words ++ [layout .newline]) :=
      Cursor.ahead_ofTokens (by rw [same, List.append_assoc]; rfl) inside
    obtain ⟨first, others, rfl, opens⟩ := phrase.opens
    have count := congrArg List.length ahead.upcoming
    simp only [List.length_map, List.length_append, List.length_cons, List.length_nil] at count
    obtain ⟨budget, room⟩ : ∃ budget, Parser.budgetFor (Cursor.ofTokens tokens).upcoming.length = budget + 2 :=
      ⟨_, (Nat.sub_add_cancel (by rw [Parser.budgetFor]; omega)).symm⟩
    have enough : 2 * (first :: others).length + 1 ≤ budget := by
      rw [Parser.budgetFor] at room
      rw [List.length_cons]
      omega
    have reads := phrase.holds.reads enough (Nat.lt_trans (by decide : Precedence.lowest < _) phrase.above)
      (by decide : pull [layout .newline] ≤ Precedence.lowest) (Nat.zero_le _)
    obtain ⟨found, after, read, bare, behind⟩ :=
      Parser.reads_line opens reads (Cursor.ofTokens tokens) (by rwa [List.append_nil])
    have starts := opens.starts.layout
    rw [← show (Cursor.ofTokens tokens).peek.bare = first from ahead.heads] at starts
    have spent : after.upcoming = [] := List.map_eq_nil_iff.1 behind.upcoming
    have whole := Parser.program_apply starts.1 starts.2.2 (by rw [room]; exact read) spent behind.ending
    refine ⟨found, ?_, bare⟩
    rw [parseTokens, whole]
    rfl
  inside room low weak :=
    phrase.holds.reads room (Nat.lt_of_le_of_lt low phrase.above) (weak ▸ Nat.zero_le _) (weak ▸ Nat.zero_le _)

/-- Suffixes belong to the operand that they follow, with parentheses around them or not, whatever the operator in
front of the operand is and whatever stands to the left of it: only behind a power they belong to all of the power,
unless the parentheses are there. -/
theorem Phrase.suffixes_follow {symbol : String} {operator : Operator}
    (known : Operator.binary? symbol = some operator) {front back : Nat} {words : List Token} {left : Node}
    (text : Phrase front back words left) {primary : List Token} {target : Node} (held : Primary primary target)
    {suffixes : List Suffix} (proper : ∀ suffix ∈ suffixes, suffix.Proper) :
    ∃ frames inner, left = Node.within frames inner ∧
      (Grammar.standard.precedence symbol ≤ back → frames = []) ∧
      Token.Means (words ++ mark symbol :: (primary ++ suffixes.flatMap Suffix.words))
        (Node.within frames (if operator = .power then
            suffixes.foldl Suffix.attach (.binary default operator default inner target)
          else .binary default operator default inner (suffixes.foldl Suffix.attach target))) ∧
      Token.Means (words ++ mark symbol :: mark "(" :: (primary ++ suffixes.flatMap Suffix.words ++ [mark ")"]))
        (Node.within frames (.binary default operator default inner (suffixes.foldl Suffix.attach target))) := by
  have strength := Operator.precedence_le_suffix known
  obtain ⟨frames, first, last, lends⟩ := text.lends strength
  obtain ⟨front', back', binds, operand⟩ := Phrase.attached held (by decide) proper
  have stronger : Precedence.suffix ≤ front' := Nat.le_trans (by decide) binds
  -- what becomes of the operator with its operands takes the place of the left one
  have placed : ∀ {front'' back'' : Nat} {more : List Token} {whole : Node},
      Phrase front'' back'' (last.words ++ mark symbol :: more) whole →
      min last.front (Grammar.standard.precedence symbol) ≤ front'' →
      Token.Means (words ++ mark symbol :: more) (Node.within frames whole) := by
    intro front'' back'' more whole phrase enough
    obtain ⟨_, _, put, -⟩ := lends.put ⟨front'', back'', _, whole⟩ phrase enough
    rw [← List.append_assoc, lends.split] at put
    exact put.means
  refine ⟨frames, last.node, lends.whole.symm, lends.all.2, ?_, ?_⟩
  · rcases Operator.precedence_cases known with ⟨rfl, equal⟩ | ⟨other, weaker⟩
    · -- the power is complete before the first suffix is read
      have power := Phrase.binary known lends.phrase lends.fits held (Nat.lt_succ_of_le strength)
      obtain ⟨front₂, back₂, least, behind⟩ := power.attached (by rw [equal]; decide) proper
      rw [List.append_assoc, List.cons_append] at behind
      exact placed behind (by omega)
    · rw [if_neg other]
      exact placed (.binary known lends.phrase lends.fits operand (by omega)) (Nat.le_refl _)
  · exact placed (.binary known lends.phrase lends.fits (.group operand) (Nat.lt_succ_of_le strength))
      (Nat.le_refl _)

/-- A call and a subscript behind a product belong to its second factor. -/
theorem Phrase.suffixes_follow_product :
    ∃ suffixes : List Suffix, (∀ suffix ∈ suffixes, suffix.Proper) ∧
      Operator.binary? "*" = some .multiply ∧ Primary [name "b"] (.identifier default "b") ∧
      Primary [name "f"] (.identifier default "f") ∧
      suffixes.flatMap Suffix.words = [mark "(", name "x", mark ")", mark "[", name "i", mark "]"] ∧
      Token.Means [name "b", mark "*", name "f", mark "(", name "x", mark ")", mark "[", name "i", mark "]"]
        (.binary default .multiply default (.identifier default "b") (.element default
          (.call default (.identifier default "f") [.identifier default "x"]) (.identifier default "i"))) ∧
      Token.Means [name "b", mark "*", mark "(", name "f", mark "(", name "x", mark ")", mark "[", name "i", mark "]",
          mark ")"]
        (.binary default .multiply default (.identifier default "b") (.element default
          (.call default (.identifier default "f") [.identifier default "x"]) (.identifier default "i"))) := by
  have leaf (word : String) : Primary [name word] (.identifier default word) := @Phrase.atom (name word) (.inl rfl)
  let operand (word : String) : Operand :=
    ⟨Precedence.closed, Precedence.closed, [name word], .identifier default word⟩
  have proper : ∀ suffix ∈ [Suffix.call [operand "x"] false, Suffix.element (operand "i")], suffix.Proper :=
    List.forall_mem_cons.2 ⟨List.forall_mem_singleton.2 (leaf "x"),
      List.forall_mem_singleton.2 (List.forall_mem_singleton.2 (leaf "i"))⟩
  obtain ⟨frames, inner, same, whole, plain, grouped⟩ :=
    @Phrase.suffixes_follow "*" _ rfl _ _ _ _ (leaf "b") _ _ (leaf "f") _ proper
  obtain rfl := whole (by decide)
  obtain rfl : _ = inner := same
  exact ⟨_, proper, rfl, leaf "b", leaf "f", rfl, plain, grouped⟩

/-- Behind a power the call is that of the power, and only in parentheses it is its exponent. -/
theorem parse_power_call :
    ∃ plain grouped, parse "a ** f(1)" = .ok plain ∧ parse "a ** (f(1))" = .ok grouped ∧
      plain.statements.map Node.tag = [.call] ∧ grouped.statements.map Node.tag = [.binary] := by
  have read : ∀ (source : String) (tags : List NodeTag),
      (parse source).toOption.map (fun program => program.statements.map Node.tag) = some tags →
      ∃ program, parse source = .ok program ∧ program.statements.map Node.tag = tags := by
    intro source tags known
    cases done : parse source with
    | error fault => rw [done] at known; cases known
    | ok program =>
      rw [done] at known
      exact ⟨program, rfl, Option.some.inj known⟩
  obtain ⟨plain, reads, call⟩ := read "a ** f(1)" [.call] (by decide +kernel)
  obtain ⟨grouped, reads', power⟩ := read "a ** (f(1))" [.binary] (by decide +kernel)
  exact ⟨plain, grouped, reads, reads', call, power⟩

end TabScript
