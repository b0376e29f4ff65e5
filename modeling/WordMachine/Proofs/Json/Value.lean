import WordMachine.Proofs.Json.Printing

/-!
# Proofs/Json/Value — a value is skipped whole

Which rows of tokens are one value is said by a grammar (`IsValue`). Skipping keeps no values, only
the brackets that are open, and still takes every value whole, however deep it is nested and
whatever follows it (`skipValue?_append`).
-/

namespace WordMachine

namespace Json

/-- The tokens are one value. -/
inductive IsValue : List Token → Prop where
  /-- The string need not have a text. -/
  | string (text : Option Text) : IsValue [.string text]
  | natural (n : Nat) : IsValue [.natural n]
  | otherNumber : IsValue [.otherNumber]
  | literal : IsValue [.literal]
  | array {items : List (List Token)} (h : ∀ item ∈ items, IsValue item) :
      IsValue (Frame.array.tokens items)
  | object {members : List (Option Text × List Token)} (h : ∀ m ∈ members, IsValue m.2) :
      IsValue (Frame.object.tokens (members.map fun m => keyed m.1 m.2))

variable {expected : Expected} {frame : Frame} {frames : List Frame} {part ts rest : List Token}
  {parts : List (List Token)}

/-! ## Brackets -/

/-- What is expected behind the opening of a bracket… -/
def Frame.first : Frame → Expected
  | array => .firstItem
  | object => .firstKey

/-- …and behind a comma in it. -/
def Frame.next : Frame → Expected
  | array => .value
  | object => .key

/-- Going on with a value behind us: all is done unless a bracket is open. -/
def resume (frames : List Frame) (rest : List Token) : Option (List Token) :=
  match frames with
  | [] => some rest
  | _ => skip? .separator frames rest

/-- The tokens are taken whole where a bracket can have a member. -/
def Frame.Takes (frame : Frame) (part : List Token) : Prop :=
  ∀ {expected frames} rest, expected = frame.first ∨ expected = frame.next →
    skip? expected frames (part ++ rest) = resume frames rest

theorem resume_closing (frame : Frame) (frames : List Frame) (rest : List Token) :
    resume (frame :: frames) (frame.brackets.2 :: rest) = resume frames rest := by
  cases frame
  all_goals rfl

theorem resume_comma (frame : Frame) (frames : List Frame) (rest : List Token) :
    resume (frame :: frames) (.comma :: rest) = skip? frame.next (frame :: frames) rest := by
  cases frame
  all_goals rfl

theorem skip?_parts (h : ∀ p ∈ part :: parts, frame.Takes p)
    (hexpected : expected = frame.first ∨ expected = frame.next) :
    skip? expected (frame :: frames)
      ([.comma].intercalate (part :: parts) ++ frame.brackets.2 :: rest) = resume frames rest := by
  induction parts generalizing part expected with
  | nil =>
    rw [List.intercalate_singleton, h part List.mem_cons_self _ hexpected, resume_closing]
  | cons next parts ih =>
    rw [List.intercalate_cons_cons, List.append_assoc, List.append_assoc,
      h part List.mem_cons_self _ hexpected, List.singleton_append, resume_comma]
    exact ih (fun p hp => h p (List.mem_cons_of_mem _ hp)) (.inr rfl)

/-- **A bracket is taken whole if its members are.** -/
theorem takes_tokens (h : ∀ p ∈ parts, frame.Takes p) : Frame.array.Takes (frame.tokens parts) := by
  intro expected frames rest hexpected
  have hopen (rest : List Token) : skip? expected frames (frame.brackets.1 :: rest) =
      skip? frame.first (frame :: frames) rest := by
    cases frame
    all_goals
      rcases hexpected with rfl | rfl
      all_goals rfl
  rw [Frame.tokens, List.cons_append, hopen, List.append_assoc, List.singleton_append]
  cases parts with
  | nil =>
    cases frame
    all_goals rfl
  | cons part parts => exact skip?_parts h (.inl rfl)

/-! ## Values -/

theorem IsValue.takes (h : IsValue ts) : Frame.array.Takes ts := by
  induction h with
  | array _ ih => exact takes_tokens ih
  | object _ ih =>
    refine takes_tokens ?_
    intro part hpart
    obtain ⟨m, hm, rfl⟩ := List.mem_map.mp hpart
    intro expected frames rest hexpected
    have hkey : skip? expected frames (keyed m.1 m.2 ++ rest) =
        skip? .value frames (m.2 ++ rest) := by
      rcases hexpected with rfl | rfl
      all_goals rfl
    rw [hkey]
    exact ih m hm rest (.inr rfl)
  | _ =>
    intro expected frames rest hexpected
    rcases hexpected with rfl | rfl
    all_goals rfl

/-- **A value is skipped whole.** -/
theorem skipValue?_append (h : IsValue ts) (rest : List Token) :
    skipValue? (ts ++ rest) = some rest :=
  h.takes rest (.inr rfl)

mutual

/-- The tokens of a value are one value. -/
theorem isValue_tokens : ∀ v : Json, IsValue v.tokens
  | .null => .literal
  | .natural n => .natural n
  | .string t => .string (some t)
  | .array items => .array (isValue_itemTokens items)
  | .object members => by
    have hall : ∀ m ∈ members.map fun m => (some m.1, m.2.tokens), IsValue m.2 :=
      List.forall_mem_map.mpr (isValue_members members)
    have h := IsValue.object hall
    rw [List.map_map] at h
    rw [tokens, memberTokens_eq]
    exact h

theorem isValue_itemTokens : ∀ items, ∀ item ∈ itemTokens items, IsValue item
  | [] => by simp [itemTokens]
  | item :: items => by
    rw [itemTokens, List.forall_mem_cons]
    exact ⟨isValue_tokens item, isValue_itemTokens items⟩

theorem isValue_members : ∀ members : List (Text × Json), ∀ m ∈ members, IsValue m.2.tokens
  | [] => by simp
  | (_, value) :: members => by
    rw [List.forall_mem_cons]
    exact ⟨isValue_tokens value, isValue_members members⟩

end

end Json

end WordMachine
