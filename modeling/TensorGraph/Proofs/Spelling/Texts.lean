import TensorGraph.Json.Decoder
import TensorGraph.Proofs.Outcome
import TensorGraph.Proofs.Spelling.Words

/-! Texts and the trees that they write. A tree has its tokens, and it is written by every text of these
tokens, whatever words spell them and whatever blanks stand between them. Reading finds the tree of a
text that writes one; what it makes of any other text is marked as broken or goes on behind its end. -/
namespace TensorGraph.Json

mutual

/-- The tokens of a tree. -/
def Tree.tokens : Tree → List Token
  | .null => [.null]
  | .boolean value => [.boolean value]
  | .number literal => [.number literal]
  | .string text => [.string text]
  | .array items => .openBracket :: ((itemTokens items).tail ++ [.closeBracket])
  | .object members => .openBrace :: ((memberTokens members).tail ++ [.closeBrace])
  | .broken => [.unreadable]

/-- The tokens of items, with a comma in front of each. -/
def itemTokens : List Tree → List Token
  | [] => []
  | tree :: rest => .comma :: (tree.tokens ++ itemTokens rest)

/-- The tokens of members, with a comma in front of each. -/
def memberTokens : List (Option String × Tree) → List Token
  | [] => []
  | (key, tree) :: rest => .comma :: .string key :: .colon :: (tree.tokens ++ memberTokens rest)

end

/-- Texts of tokens, each spelled by some word, with blanks in front of each and at the end. A number
needs something behind it that does not go on with it. -/
inductive Spelled : List Token → List UInt8 → Prop
  | blanks {blanks : List UInt8} : (∀ octet ∈ blanks, Token.isBlank octet = true) → Spelled [] blanks
  | token {token : Token} {tokens : List Token} {blanks word rest : List UInt8} :
    (∀ octet ∈ blanks, Token.isBlank octet = true) → token.Spells word → Clear token.goesOn rest →
      Spelled tokens rest → Spelled (token :: tokens) (blanks ++ word ++ rest)

/-- A text writes a tree when it spells the tree's tokens. -/
def Tree.Writes (tree : Tree) (octets : List UInt8) : Prop := Spelled tree.tokens octets

/-- All tokens of a text; an unreadable one is the last. -/
def Token.all (octets : List UInt8) : List Token :=
  match _found : next? octets with
  | none => []
  | some (token, rest) => token :: all rest
  termination_by octets.length
  decreasing_by exact length_next? (by assumption)

theorem Token.all_eq_nil {octets : List UInt8} (found : next? octets = none) : all octets = [] := by
  rw [all]
  split <;> simp_all

theorem Token.all_eq_cons {octets rest : List UInt8} {token : Token}
    (found : next? octets = some (token, rest)) : all octets = token :: all rest := by
  rw [all]
  split <;> simp_all

theorem Token.spelled_all {octets : List UInt8} (readable : unreadable ∉ all octets) :
    Spelled (all octets) octets := by
  fun_induction all octets with
  | case1 octets found => exact .blanks (next?_eq_none_iff.mp found)
  | case2 octets token rest found ih =>
    rw [List.mem_cons, not_or] at readable
    have later : ∀ after, next? rest ≠ some (unreadable, after) := by
      intro after next
      rw [all_eq_cons next] at readable
      exact readable.2 List.mem_cons_self
    obtain ⟨blanks, word, rfl, blank, spells, clear⟩ :=
      exists_spells_of_next? found (Ne.symm readable.1) later
    exact .token blank spells clear (ih readable.2)

theorem Spelled.all_eq {tokens : List Token} {octets : List UInt8} (spelled : Spelled tokens octets) :
    Token.all octets = tokens := by
  induction spelled with
  | blanks blank => exact Token.all_eq_nil (Token.next?_eq_none_iff.mpr blank)
  | token blank spells clear _ ih =>
    rw [Token.all_eq_cons (Token.next?_of_spells blank spells clear), ih]

theorem Spelled.readable {tokens : List Token} {octets : List UInt8} (spelled : Spelled tokens octets) :
    Token.unreadable ∉ tokens := by
  induction spelled with
  | blanks => simp
  | @token token tokens blanks word rest _ spells _ _ ih =>
    rw [List.mem_cons, not_or]
    refine ⟨?_, ih⟩
    cases word with
    | nil => cases spells
    | cons octet word => exact (Token.ne_unreadable_of_scan spells).symm

/-- A text writes a tree when its tokens are those of the tree and all of them are good. -/
theorem Tree.writes_iff {tree : Tree} {octets : List UInt8} :
    tree.Writes octets ↔ Token.all octets = tree.tokens ∧ .unreadable ∉ tree.tokens := by
  constructor
  · exact fun writes => ⟨writes.all_eq, writes.readable⟩
  · intro h
    obtain ⟨same, readable⟩ := h
    rw [← same] at readable
    rw [Writes, ← same]
    exact Token.spelled_all readable

instance (tree : Tree) (octets : List UInt8) : Decidable (tree.Writes octets) :=
  decidable_of_iff _ Tree.writes_iff.symm

example : (Tree.array [.null, .array []]).Writes "\t[ null ,[ ]\n] ".toUTF8.toList := by decide +kernel

namespace Progress

def run (p : Progress) (tokens : List Token) : Progress := tokens.foldl step p

@[simp] theorem run_nil (p : Progress) : p.run [] = p := rfl

@[simp] theorem run_cons (p : Progress) (token : Token) (tokens : List Token) :
    p.run (token :: tokens) = (p.step token).run tokens := rfl

@[simp] theorem run_append (p : Progress) (tokens tokens' : List Token) :
    p.run (tokens ++ tokens') = (p.run tokens).run tokens' := List.foldl_append

theorem read_eq_run (p : Progress) (octets : List UInt8) : p.read octets = p.run (Token.all octets) := by
  fun_induction read p octets with
  | case1 p octets found => rw [Token.all_eq_nil found, run_nil]
  | case2 p octets token rest found ih => rw [Token.all_eq_cons found, run_cons, ih]

/-- An array's first item is read as any other. -/
theorem run_firstItem {tree : Tree} (readable : .unreadable ∉ tree.tokens) (outer : List Frame) :
    (firstItem outer).run tree.tokens = (beforeValue (.array [] :: outer)).run tree.tokens := by
  cases tree with
  | broken => simp [Tree.tokens] at readable
  | _ => rfl

mutual

/-- Reading the tokens of a tree delivers the tree. -/
theorem run_tokens (tree : Tree) (outer : List Frame) (readable : .unreadable ∉ tree.tokens) :
    (beforeValue outer).run tree.tokens = deliver tree outer := by
  cases tree with
  | null => rfl
  | boolean value => rfl
  | number literal => rfl
  | string text => rfl
  | array items =>
    rw [Tree.tokens, run_cons]
    cases items with
    | nil => rfl
    | cons first rest =>
      simp only [Tree.tokens, itemTokens, List.tail_cons, List.mem_cons, List.mem_append, not_or]
        at readable
      obtain ⟨-, ⟨here, later⟩, -⟩ := readable
      rw [itemTokens, List.tail_cons, run_append, run_append]
      have begun : (beforeValue outer).step .openBracket = firstItem outer := rfl
      rw [begun, run_firstItem here, run_tokens first _ here, deliver, run_itemTokens rest _ _ later]
      simp [step]
  | object members =>
    rw [Tree.tokens, run_cons]
    match members with
    | [] => rfl
    | (key, first) :: rest =>
      simp only [Tree.tokens, memberTokens, List.tail_cons, List.mem_cons, List.mem_append, not_or]
        at readable
      obtain ⟨-, ⟨-, -, here, later⟩, -⟩ := readable
      rw [memberTokens, List.tail_cons, List.cons_append, List.cons_append, run_cons, run_cons,
        run_append, run_append]
      have begun : (((beforeValue outer).step .openBrace).step (.string key)).step .colon =
          beforeValue (.object [] key :: outer) := rfl
      rw [begun, run_tokens first _ here, deliver, run_memberTokens rest _ _ later]
      simp [step]
  | broken => simp [Tree.tokens] at readable

theorem run_itemTokens (items done : List Tree) (outer : List Frame)
    (readable : .unreadable ∉ itemTokens items) :
    (afterItem done outer).run (itemTokens items) = afterItem (items.reverse ++ done) outer := by
  cases items with
  | nil => rfl
  | cons tree rest =>
    simp only [itemTokens, List.mem_cons, List.mem_append, not_or] at readable
    obtain ⟨-, here, later⟩ := readable
    have begun : (afterItem done outer).step .comma = beforeValue (.array done :: outer) := rfl
    rw [itemTokens, run_cons, run_append, begun, run_tokens tree _ here, deliver,
      run_itemTokens rest _ _ later]
    simp

theorem run_memberTokens (members done : List (Option String × Tree)) (outer : List Frame)
    (readable : .unreadable ∉ memberTokens members) :
    (afterMember done outer).run (memberTokens members) =
      afterMember (members.reverse ++ done) outer := by
  match members with
  | [] => rfl
  | (key, tree) :: rest =>
    simp only [memberTokens, List.mem_cons, List.mem_append, not_or] at readable
    obtain ⟨-, -, -, here, later⟩ := readable
    have begun : (((afterMember done outer).step .comma).step (.string key)).step .colon =
        beforeValue (.object done key :: outer) := rfl
    rw [memberTokens, run_cons, run_cons, run_cons, run_append, begun, run_tokens tree _ here, deliver,
      run_memberTokens rest _ _ later]
    simp

end

/-- The tokens in front of what is inside the open containers. -/
def openTokens : List Frame → List Token
  | [] => []
  | .array done :: outer =>
    openTokens outer ++ .openBracket :: (itemTokens done.reverse ++ [Token.comma]).tail
  | .object done key :: outer =>
    openTokens outer ++
      .openBrace :: ((memberTokens done.reverse ++ [Token.comma]).tail ++ [.string key, .colon])

/-- The tokens that were read, if all of them were good and nothing follows the end. -/
def tokens? : Progress → Option (List Token)
  | beforeValue outer => some (openTokens outer)
  | firstItem outer => some (openTokens outer ++ [.openBracket])
  | afterItem [] _ => none
  | afterItem done outer => some (openTokens outer ++ .openBracket :: (itemTokens done.reverse).tail)
  | firstKey outer => some (openTokens outer ++ [.openBrace])
  | nextKey done outer =>
    some (openTokens outer ++ .openBrace :: (memberTokens done.reverse ++ [Token.comma]).tail)
  | afterKey done key outer =>
    some (openTokens outer ++
      .openBrace :: ((memberTokens done.reverse ++ [Token.comma]).tail ++ [.string key]))
  | afterMember [] _ => none
  | afterMember done outer =>
    some (openTokens outer ++ .openBrace :: (memberTokens done.reverse).tail)
  | whole tree => some tree.tokens
  | beyond _ | cut _ => none

end Progress

@[simp] theorem itemTokens_append (items items' : List Tree) :
    itemTokens (items ++ items') = itemTokens items ++ itemTokens items' := by
  induction items with
  | nil => rfl
  | cons tree rest ih => simp [itemTokens, ih]

@[simp] theorem memberTokens_append (members members' : List (Option String × Tree)) :
    memberTokens (members ++ members') = memberTokens members ++ memberTokens members' := by
  induction members with
  | nil => rfl
  | cons member rest ih => simp [memberTokens, ih]

/-- Without the comma in front, what comes behind another comma is as it was. -/
theorem tail_append_cons {α : Type} (xs ys : List α) (x : α) :
    (xs ++ x :: ys).tail = (xs ++ [x]).tail ++ ys := by
  cases xs <;> simp

namespace Progress

theorem tokens?_deliver (tree : Tree) (outer : List Frame) :
    (deliver tree outer).tokens? = some (openTokens outer ++ tree.tokens) := by
  match outer with
  | [] => rfl
  | .array done :: outer =>
    rw [deliver, tokens?, List.reverse_cons, itemTokens_append, itemTokens, itemTokens, List.append_nil,
      tail_append_cons, openTokens]
    · simp
    · simp
  | .object done key :: outer =>
    rw [deliver, tokens?, List.reverse_cons, memberTokens_append, memberTokens, memberTokens,
      List.append_nil, tail_append_cons, openTokens]
    · simp
    · simp

/-- A reading that cannot end well any more. -/
def Stuck : Progress → Prop
  | beyond _ | cut _ => True
  | _ => False

/-- The reading has come past tokens, or it is stuck. -/
def HasRead (p : Progress) (tokens : List Token) : Prop := p.Stuck ∨ p.tokens? = some tokens

variable {p : Progress} {token : Token} {tokens before : List Token}

theorem Stuck.step (stuck : p.Stuck) (token : Token) : (p.step token).Stuck := by
  cases p with
  | beyond tree | cut tree => trivial
  | _ => cases stuck

theorem Stuck.run (stuck : p.Stuck) (tokens : List Token) : (p.run tokens).Stuck := by
  induction tokens generalizing p with
  | nil => exact stuck
  | cons token tokens ih => exact ih (stuck.step token)

theorem stuck_step_unreadable (p : Progress) : (p.step .unreadable).Stuck := by
  cases p <;> trivial

theorem readable_of_run (free : ¬(p.run tokens).Stuck) : .unreadable ∉ tokens := by
  intro mem
  obtain ⟨front, rest, rfl⟩ := List.append_of_mem mem
  rw [run_append, run_cons] at free
  exact free ((stuck_step_unreadable _).run rest)

theorem hasRead_begin (outer : List Frame) (token : Token) (tree : Tree) :
    ((begin? outer token).getD (cut tree)).HasRead (openTokens outer ++ [token]) := by
  cases token with
  | openBrace | openBracket => exact .inr rfl
  | null | boolean value | number literal | string text => exact .inr (tokens?_deliver _ outer)
  | _ => exact .inl trivial

/-- A step comes past one token more. -/
theorem HasRead.step (good : p.HasRead before) (token : Token) :
    (p.step token).HasRead (before ++ [token]) := by
  rcases good with stuck | good
  · exact .inl (stuck.step token)
  · unfold Progress.step
    split
    -- where a value may begin
    · cases good
      exact hasRead_begin _ _ _
    · cases good
      rw [List.append_assoc]
      exact .inr (tokens?_deliver _ _)
    · cases good
      exact hasRead_begin (.array [] :: _) _ _
    -- behind an item, of which there is one: the tail only takes the comma in front of the first
    · rename_i done outer
      cases done with
      | nil => cases good
      | cons tree done =>
        cases good
        refine .inr ?_
        rw [tokens?, openTokens, List.tail_append_of_ne_nil (by simp [itemTokens]), List.append_assoc]
        rfl
    · rename_i done outer
      cases done with
      | nil => cases good
      | cons tree done =>
        cases good
        refine .inr ?_
        rw [tokens?_deliver, Tree.tokens, List.append_assoc]
        rfl
    -- at a key and behind it
    · cases good
      rw [List.append_assoc]
      exact .inr (tokens?_deliver _ _)
    · cases good
      exact .inr (by simp [tokens?, memberTokens])
    · cases good
      exact .inr (by simp [tokens?])
    · cases good
      exact .inr (by simp [tokens?, openTokens])
    -- behind a member
    · rename_i done outer
      cases done with
      | nil => cases good
      | cons member done =>
        cases good
        refine .inr ?_
        rw [tokens?, List.tail_append_of_ne_nil (by simp [memberTokens]), List.append_assoc]
        rfl
    · rename_i done outer
      cases done with
      | nil => cases good
      | cons member done =>
        cases good
        refine .inr ?_
        rw [tokens?_deliver, Tree.tokens, List.append_assoc]
        rfl
    -- at an end, or where the token does not fit
    all_goals exact .inl trivial

theorem HasRead.run (good : p.HasRead before) (tokens : List Token) :
    (p.run tokens).HasRead (before ++ tokens) := by
  induction tokens generalizing p before with
  | nil => simpa using good
  | cons token tokens ih =>
    have next := ih (good.step token)
    rwa [List.append_assoc, List.singleton_append] at next

/-- Reading finds a tree where the text writes one, and nowhere else. -/
theorem read_eq_whole_iff {octets : List UInt8} {tree : Tree} :
    (beforeValue []).read octets = whole tree ↔ tree.Writes octets := by
  rw [read_eq_run]
  constructor
  · intro found
    have free : ¬((beforeValue []).run (Token.all octets)).Stuck := by simp [found, Stuck]
    have good : (beforeValue []).HasRead [] := .inr rfl
    have same := (good.run (Token.all octets)).resolve_left free
    rw [found, tokens?, List.nil_append, Option.some.injEq] at same
    exact Tree.writes_iff.mpr ⟨same.symm, same ▸ readable_of_run free⟩
  · intro writes
    rw [writes.all_eq, run_tokens tree [] writes.readable]
    rfl

end Progress

theorem Tree.Writes.unique {tree tree' : Tree} {octets : List UInt8} (writes : tree.Writes octets)
    (writes' : tree'.Writes octets) : tree = tree' := by
  have found := Progress.read_eq_whole_iff.mpr writes
  rw [Progress.read_eq_whole_iff.mpr writes'] at found
  exact (Progress.whole.inj found).symm

/-- Trees of texts that go no further: the mark is the last in them. -/
inductive Tree.Marked : Tree → Prop
  | broken : Marked .broken
  | array (items : List Tree) : Marked (.array (items ++ [.broken]))
  | object (members : List Member) : Marked (.object (members ++ [Progress.brokenMember]))

namespace Progress

variable {p : Progress} {tree : Tree}

theorem marked_close (marked : tree.Marked) (outer : List Frame) : (close tree outer).Marked := by
  induction outer generalizing tree with
  | nil => exact marked
  | cons frame outer ih =>
    cases frame with
    | array done =>
      apply ih
      rw [List.reverse_cons]
      exact .array _
    | object done key =>
      apply ih
      rw [List.reverse_cons]
      exact .object _

/-- A reading has come to the end of a tree, or what it makes of the text so far is marked. -/
def Settled (p : Progress) : Prop :=
  (∃ tree, p = whole tree) ∨ (∃ tree, p = beyond tree) ∨ p.tree.Marked

theorem settled_of_not_cut (uncut : ∀ tree, p ≠ cut tree) : p.Settled := by
  cases p with
  | beforeValue outer => exact .inr (.inr (marked_close .broken outer))
  | firstItem outer => exact .inr (.inr (marked_close (.array []) outer))
  | afterItem done outer =>
    refine .inr (.inr (marked_close ?_ outer))
    rw [List.reverse_cons]
    exact .array _
  | firstKey outer => exact .inr (.inr (marked_close (.object []) outer))
  | nextKey done outer | afterKey done key outer | afterMember done outer =>
    refine .inr (.inr (marked_close ?_ outer))
    rw [List.reverse_cons]
    exact .object _
  | whole tree => exact .inl ⟨tree, rfl⟩
  | beyond tree => exact .inr (.inl ⟨tree, rfl⟩)
  | cut tree => exact absurd rfl (uncut tree)

theorem deliver_ne_cut (tree cutTree : Tree) (outer : List Frame) : deliver tree outer ≠ cut cutTree := by
  match outer with
  | [] | .array _ :: _ | .object _ _ :: _ => nofun

theorem settled_cut (marked : tree.Marked) : (cut tree).Settled := .inr (.inr marked)

theorem settled_begin (marked : tree.Marked) (outer : List Frame) (token : Token) :
    ((begin? outer token).getD (cut tree)).Settled := by
  cases token with
  | openBrace | openBracket => exact settled_of_not_cut nofun
  | null | boolean value | number literal | string text =>
    exact settled_of_not_cut fun _ => deliver_ne_cut _ _ outer
  | _ => exact settled_cut marked

theorem Settled.step (settled : p.Settled) (token : Token) : (p.step token).Settled := by
  unfold Progress.step
  split
  · exact settled_begin (marked_close .broken _) _ _
  · exact settled_of_not_cut fun _ => deliver_ne_cut _ _ _
  · exact settled_begin (marked_close (.array []) _) _ _
  · exact settled_of_not_cut nofun
  · exact settled_of_not_cut fun _ => deliver_ne_cut _ _ _
  · exact settled_of_not_cut fun _ => deliver_ne_cut _ _ _
  · exact settled_of_not_cut nofun
  · exact settled_of_not_cut nofun
  · exact settled_of_not_cut nofun
  · exact settled_of_not_cut nofun
  · exact settled_of_not_cut fun _ => deliver_ne_cut _ _ _
  · exact settled_of_not_cut nofun
  · exact settled_of_not_cut nofun
  · rcases settled with ⟨tree, rfl⟩ | ⟨tree, rfl⟩ | marked
    · simp_all
    · simp_all
    · exact settled_cut marked

theorem Settled.run (settled : p.Settled) (tokens : List Token) : (p.run tokens).Settled := by
  induction tokens generalizing p with
  | nil => exact settled
  | cons token tokens ih => exact ih (settled.step token)

end Progress

/-- Texts are read as the trees that they write, where marked trees are refused. -/
theorem Decoder.document_eq_ok_iff {α : Type} {decode : Decoder α} {octets : List UInt8} {x : α}
    (refused : ∀ tree, tree.Marked → ∀ x, decode tree ≠ .ok x) :
    document decode octets = .ok x ↔ ∃ tree, tree.Writes octets ∧ decode tree = .ok x := by
  constructor
  · intro read
    obtain ⟨y, decoded, rest⟩ := bind_eq_ok.mp read
    have settled : ((Progress.beforeValue []).read octets).Settled := by
      have start : (Progress.beforeValue []).Settled := Progress.settled_of_not_cut nofun
      rw [Progress.read_eq_run]
      exact start.run _
    rw [Document.ofOctets] at decoded rest
    rcases settled with ⟨tree, found⟩ | ⟨tree, found⟩ | marked
    · rw [found] at decoded rest
      rw [← pure_eq_ok.mp rest]
      exact ⟨tree, Progress.read_eq_whole_iff.mp found, decoded⟩
    · rw [found] at rest
      cases rest
    · exact absurd decoded (refused _ marked y)
  · intro h
    obtain ⟨tree, writes, decoded⟩ := h
    have found := Progress.read_eq_whole_iff.mpr writes
    apply bind_eq_ok.mpr
    refine ⟨x, ?_, ?_⟩
    · rw [Document.ofOctets, found]
      exact decoded
    · rw [Document.ofOctets, found]
      rfl

end TensorGraph.Json
