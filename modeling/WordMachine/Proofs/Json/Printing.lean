import WordMachine.Json.Printer
import WordMachine.Json.Token
import WordMachine.Proofs.Text.Numeral
import Mathlib.Data.List.Forall2

/-!
# Proofs/Json/Printing — printed text is cut into the tokens of the value

A value has its tokens (`Json.tokens`), and its printed text is cut into them, whatever the strings
and numbers in it (`tokens?_pretty`).

A text that is cut as it should be is put together from the back (`Written`): white space changes
nothing, and a token goes in front of what can follow it. Only a number minds what follows, since
more digits, a fraction or an exponent would belong to it (`Ends`).
-/

namespace WordMachine

namespace Json

/-! ## Numbers -/

/-- The text does not go on with a number. -/
def Ends (t : Text) : Prop := ∀ c ∈ t.head?, c.isDigit = false ∧ c ≠ '.' ∧ c ≠ 'e' ∧ c ≠ 'E'

variable {n level fuel : Nat} {c : Char} {s t rest : Text} {token : Token}
  {ts us : List Token} {texts : List Text} {parts : List (List Token)}

theorem ends_cons (hc : c.isDigit = false ∧ c ≠ '.' ∧ c ≠ 'e' ∧ c ≠ 'E') (t : Text) :
    Ends (c :: t) := by
  rintro _ ⟨⟩
  exact hc

theorem digits?_append {digits : Text} (hne : digits ≠ [])
    (hdigits : ∀ c ∈ digits, c.isDigit = true) (hends : Ends rest) :
    digits? (digits ++ rest) = some (digits, rest) := by
  have hrest : rest.takeWhile Char.isDigit = [] ∧ rest.dropWhile Char.isDigit = rest := by
    cases rest with
    | nil => exact ⟨rfl, rfl⟩
    | cons c rest => simp [(hends c rfl).1]
  rw [digits?, List.span_eq_takeWhile_dropWhile, List.takeWhile_append_of_pos hdigits,
    List.dropWhile_append_of_pos hdigits, hrest.1, hrest.2, List.append_nil]
  split
  · next heq => exact absurd (Prod.mk.inj heq).1 hne
  · next heq => rw [← heq]

theorem exists_toDigits_cons (n : Nat) :
    ∃ c t, Nat.toDigits 10 n = c :: t ∧ c.isDigit = true := by
  obtain ⟨c, t, h⟩ := List.exists_cons_of_ne_nil (Nat.toDigits_ne_nil (b := 10) (n := n))
  exact ⟨c, t, h, Numeral.isDigit_of_mem_toDigits (h ▸ List.mem_cons_self)⟩

/-- All digits of a number are its whole part; a leading zero is a zero. -/
theorem whole?_toDigits (hends : Ends rest) :
    whole? (Nat.toDigits 10 n ++ rest) = some (Nat.toDigits 10 n, rest) := by
  by_cases hn : n = 0
  · subst hn
    rfl
  · obtain ⟨c, t, hdigits, -⟩ := exists_toDigits_cons n
    have hc : c ≠ '0' := fun hc => Numeral.head?_toDigits_ne hn (by rw [hdigits, hc]; rfl)
    unfold whole?
    split
    · next heq =>
      rw [hdigits, List.cons_append] at heq
      exact absurd (List.cons.inj heq).1 hc
    · exact digits?_append Nat.toDigits_ne_nil (fun _ => Numeral.isDigit_of_mem_toDigits) hends

theorem afterFraction?_of_ends (hends : Ends t) : afterFraction? t = some t := by
  unfold afterFraction?
  split
  · exact absurd rfl (hends _ rfl).2.1
  · rfl

theorem afterExponent?_of_ends (hends : Ends t) : afterExponent? t = some t := by
  cases t with
  | nil => rfl
  | cons c t => exact if_neg (not_or.mpr (hends c rfl).2.2)

/-- **The digits of a number are read as the number.** -/
theorem number?_toDigits (hends : Ends rest) :
    number? (Nat.toDigits 10 n ++ rest) = some (.natural n, rest) := by
  have hsign : (Nat.toDigits 10 n ++ rest).head? ≠ some '-' ∧
      Text.after? (Nat.toDigits 10 n ++ rest) ['-'] = none := by
    obtain ⟨c, t, hdigits, hc⟩ := exists_toDigits_cons n
    have hc : c ≠ '-' := by
      rintro rfl
      exact absurd hc (by decide)
    simp [hdigits, Text.after?, hc]
  simp only [number?, hsign.2, Option.getD_none, whole?_toDigits hends, Option.bind_eq_bind,
    Option.bind_some, afterFraction?_of_ends hends, afterExponent?_of_ends hends]
  rw [if_pos ⟨hsign.1, trivial⟩, Numeral.value?_toDigits]
  rfl

theorem token?_of_isDigit (hc : c.isDigit = true) : token? (c :: t) = number? (c :: t) := by
  unfold token?
  split
  all_goals first
    | rfl
    | next heq =>
      obtain ⟨rfl, -⟩ := List.cons.inj heq
      exact absurd hc (by decide)

/-! ## Strings -/

theorem piecesAfter_letter {letter : Char} (hletter : escaped? letter = some c)
    (before : List Piece) (rest : Text) :
    piecesAfter before ('\\' :: letter :: rest) = piecesAfter (.char c :: before) rest := by
  rw [piecesAfter, hletter]
  rintro _ _ _ _ _ rfl
  cases hletter

theorem piecesAfter_unit (w : UInt16) (before : List Piece) (rest : Text) :
    piecesAfter before ('\\' :: 'u' :: (Numeral.hex4 w ++ rest)) =
      piecesAfter (.unit w.toNat :: before) rest := by
  match Numeral.hex4 w, Numeral.length_hex4 w, Numeral.value?_hex4 w with
  | [_, _, _, _], _, hvalue =>
    simp only [List.cons_append, List.nil_append, piecesAfter, hvalue]

/-- A unit that is no half of a surrogate pair is a character by itself. -/
theorem joinAfter_unit {unit : Nat} (hunit : unit < 0xD800) (before : Text) (pieces : List Piece) :
    joinAfter before (.unit unit :: pieces) = joinAfter (Char.ofNat unit :: before) pieces := by
  have hhigh : isHighHalf unit = false := by
    simp [isHighHalf]
    omega
  have hlow : isLowHalf unit = false := by
    simp [isLowHalf]
    omega
  rw [joinAfter.eq_def]
  split
  all_goals simp_all

/-- Every character is one piece of its string, however it has to be written. -/
theorem exists_piece (c : Char) : ∃ piece,
    (∀ before rest, piecesAfter before (escape c ++ rest) = piecesAfter (piece :: before) rest) ∧
    ∀ before pieces, joinAfter before (piece :: pieces) = joinAfter (c :: before) pieces := by
  unfold escape
  split
  -- Seven characters have an escape of one letter, the other control characters one of digits.
  iterate 7
    exact ⟨.char _, piecesAfter_letter rfl, fun _ _ => by simp [joinAfter]⟩
  split
  · next hcontrol =>
    refine ⟨.unit c.toNat, fun before rest => ?_, fun before pieces => ?_⟩
    · have hw : (UInt16.ofNat c.toNat).toNat = c.toNat :=
        UInt16.toNat_ofNat_of_lt' (show c.toNat < 0x10000 by omega)
      have h := piecesAfter_unit (UInt16.ofNat c.toNat) before rest
      rwa [Numeral.hex4, hw] at h
    · rw [joinAfter_unit (by omega), Char.ofNat_toNat]
  · next hquote hslash _ _ _ _ _ hplain =>
    refine ⟨.char c, fun before rest => ?_, fun _ _ => by simp [joinAfter]⟩
    rw [List.singleton_append, piecesAfter, if_neg hplain]
    · exact hquote
    · intro _ _ _ _ _ hc
      exact absurd hc hslash
    · intro _ _ hc
      exact absurd hc hslash

theorem exists_pieces (t : Text) : ∃ pieces,
    (∀ before rest, piecesAfter before (t.flatMap escape ++ '"' :: rest) =
      some (before.reverse ++ pieces, rest)) ∧
    ∀ before, joinAfter before pieces = some (before.reverse ++ t) := by
  induction t with
  | nil => exact ⟨[], fun _ _ => by simp [piecesAfter], fun _ => by simp [joinAfter]⟩
  | cons c t ih =>
    obtain ⟨piece, hread, hjoin⟩ := exists_piece c
    obtain ⟨pieces, hreads, hjoins⟩ := ih
    refine ⟨piece :: pieces, fun before rest => ?_, fun before => ?_⟩
    · rw [List.flatMap_cons, List.append_assoc, hread, hreads, List.reverse_cons,
        List.append_assoc, List.singleton_append]
    · rw [hjoin, hjoins, List.reverse_cons, List.append_assoc, List.singleton_append]

/-- **A quoted text is read as the text.** -/
theorem token?_quoted (t rest : Text) :
    token? (quoted t ++ rest) = some (.string (some t), rest) := by
  obtain ⟨pieces, hread, hjoin⟩ := exists_pieces t
  have hread : piecesAfter [] (t.flatMap escape ++ ['"'] ++ rest) = some (pieces, rest) := by
    rw [List.append_assoc]
    exact hread [] rest
  have hjoin : joinAfter [] pieces = some t := hjoin []
  have htoken : token? (quoted t ++ rest) = (piecesAfter [] (t.flatMap escape ++ ['"'] ++ rest)).map
      fun read => (.string (joinAfter [] read.1), read.2) := rfl
  simp only [htoken, hread, Option.map_some, hjoin]

/-! ## Texts put together from the back -/

/-- The text is written for the tokens: each stands where it is read before what follows. -/
inductive Written : Text → List Token → Prop where
  | nil : Written [] []
  | space {c : Char} {t : Text} {ts : List Token} (hc : isSpace c = true) (h : Written t ts) :
      Written (c :: t) ts
  | token {c : Char} {t rest : Text} {token : Token} {ts : List Token} (hc : isSpace c = false)
      (htoken : token? (c :: t ++ rest) = some (token, rest)) (h : Written rest ts) :
      Written (c :: t ++ rest) (token :: ts)

theorem tokensAfter_space (hc : isSpace c = true) (before : List Token) :
    tokensAfter before fuel (c :: t) = tokensAfter before fuel t := by
  cases fuel with
  | zero => simp [tokensAfter, hc]
  | succ fuel => rw [tokensAfter, List.dropWhile_cons_of_pos hc, tokensAfter]

theorem Written.tokensAfter_eq (h : Written t ts) (before : List Token)
    (hfuel : ts.length ≤ fuel) : tokensAfter before fuel t = some (before.reverse ++ ts) := by
  -- A token takes one of the fuel, white space takes none.
  induction h generalizing before fuel with
  | nil => cases fuel <;> simp [tokensAfter]
  | space hc _ ih => rw [tokensAfter_space hc, ih before hfuel]
  | @token c t rest token ts hc htoken _ ih =>
    rw [List.length_cons] at hfuel
    obtain ⟨fuel, rfl⟩ : ∃ k, fuel = k + 1 := ⟨fuel - 1, by omega⟩
    rw [List.cons_append] at htoken ⊢
    rw [tokensAfter, List.dropWhile_cons_of_neg (by simp [hc])]
    simp only [htoken]
    rw [ih (token :: before) (by omega), List.reverse_cons, List.append_assoc,
      List.singleton_append]

theorem Written.length_le (h : Written t ts) : ts.length ≤ t.length := by
  induction h with
  | nil => exact le_rfl
  | space _ _ ih => exact Nat.le_succ_of_le ih
  | token _ _ _ ih =>
    simp only [List.length_append, List.length_cons]
    omega

/-- **A text is cut into the tokens that it is written for.** -/
theorem Written.tokens?_eq (h : Written t ts) : tokens? t = some ts :=
  h.tokensAfter_eq [] h.length_le

theorem Written.char (h : Written rest ts) (hc : isSpace c = false)
    (htoken : token? (c :: rest) = some (token, rest)) : Written (c :: rest) (token :: ts) :=
  .token (t := []) hc htoken h

theorem Written.spaces (h : Written rest ts) (hs : ∀ c ∈ s, isSpace c = true) :
    Written (s ++ rest) ts := by
  induction s with
  | nil => exact h
  | cons c s ih =>
    exact .space (hs c List.mem_cons_self) (ih fun c hc => hs c (List.mem_cons_of_mem _ hc))

theorem Written.newLine (h : Written rest ts) (level : Nat) :
    Written (newLine level ++ rest) ts := by
  refine h.spaces ?_
  intro c hc
  rcases List.mem_cons.mp hc with rfl | hc
  · rfl
  · rw [List.eq_of_mem_replicate hc]
    rfl

theorem Written.quoted (h : Written rest ts) (t : Text) :
    Written (quoted t ++ rest) (.string (some t) :: ts) :=
  .token rfl (token?_quoted t rest) h

theorem Written.digits (h : Written rest ts) (hends : Ends rest) (n : Nat) :
    Written (Nat.toDigits 10 n ++ rest) (.natural n :: ts) := by
  obtain ⟨c, t, hdigits, hc⟩ := exists_toDigits_cons n
  have hspace : isSpace c = false := by
    refine Bool.eq_false_iff.mpr fun hspace => ?_
    simp only [isSpace, Bool.or_eq_true, beq_iff_eq] at hspace
    rcases hspace with ((rfl | rfl) | rfl) | rfl
    all_goals exact absurd hc (by decide)
  have htoken := (token?_of_isDigit (t := t ++ rest) hc).trans
    (by rw [← List.cons_append, ← hdigits, number?_toDigits hends])
  rw [hdigits]
  exact .token hspace htoken h

/-! ## Values -/

/-- What stands before and behind the members of a bracket… -/
def Frame.marks : Frame → Char × Char
  | array => ('[', ']')
  | object => ('\x7b', '\x7d')

/-- …as tokens… -/
def Frame.brackets : Frame → Token × Token
  | array => (.openArray, .closeArray)
  | object => (.openObject, .closeObject)

/-- …and with the members, which commas separate. -/
def Frame.tokens (frame : Frame) (parts : List (List Token)) : List Token :=
  frame.brackets.1 :: ([.comma].intercalate parts ++ [frame.brackets.2])

/-- The tokens of a value behind a key. -/
def keyed (key : Option Text) (value : List Token) : List Token := .string key :: .colon :: value

mutual

/-- The tokens of a value. -/
def tokens : Json → List Token
  | null => [.literal]
  | natural n => [.natural n]
  | string t => [.string (some t)]
  | array items => Frame.array.tokens (itemTokens items)
  | object members => Frame.object.tokens (memberTokens members)

/-- The tokens of each item of an array. -/
def itemTokens : List Json → List (List Token)
  | [] => []
  | item :: items => item.tokens :: itemTokens items

/-- The tokens of each member of an object. -/
def memberTokens : List (Text × Json) → List (List Token)
  | [] => []
  | (key, value) :: members => keyed (some key) value.tokens :: memberTokens members

end

theorem memberTokens_eq (members : List (Text × Json)) :
    memberTokens members = members.map fun m => keyed (some m.1) m.2.tokens := by
  induction members with
  | nil => rfl
  | cons m members ih => rw [memberTokens, ih, List.map_cons]

/-- The text is written for the tokens wherever no number goes on behind it. -/
def Prints (t : Text) (ts : List Token) : Prop :=
  ∀ {rest us}, Ends rest → Written rest us → Written (t ++ rest) (ts ++ us)

theorem prints_intercalate (h : List.Forall₂ Prints texts parts) :
    Prints ([','].intercalate texts) ([.comma].intercalate parts) := by
  intro rest us hends hrest
  induction h with
  | nil => exact hrest
  | @cons t ts texts parts ht hall ih =>
    cases hall with
    | nil =>
      rw [List.intercalate_singleton, List.intercalate_singleton]
      exact ht hends hrest
    | cons ht' hall =>
      rw [List.intercalate_cons_cons, List.intercalate_cons_cons]
      simp only [List.append_assoc, List.singleton_append]
      exact ht (ends_cons (by decide) _) (.char ih rfl rfl)

theorem prints_block (frame : Frame) (h : List.Forall₂ Prints texts parts) :
    Prints (block frame.marks.1 frame.marks.2 level texts) (frame.tokens parts) := by
  intro rest us hends hrest
  have hclose : Written (frame.marks.2 :: rest) (frame.brackets.2 :: us) := by
    cases frame
    all_goals exact hrest.char rfl rfl
  have hopen {t : Text} {ts : List Token} (ht : Written t ts) :
      Written (frame.marks.1 :: t) (frame.brackets.1 :: ts) := by
    cases frame
    all_goals exact ht.char rfl rfl
  rw [block]
  split
  · next hempty =>
    obtain rfl := List.isEmpty_iff.mp hempty
    cases h
    exact hopen hclose
  · have hlines : List.Forall₂ Prints (texts.map fun t => newLine (level + 1) ++ t) parts := by
      refine List.forall₂_map_left_iff.mpr (h.imp fun t ts ht => ?_)
      intro rest us hends hrest
      rw [List.append_assoc]
      exact (ht hends hrest).newLine _
    have hbody := prints_intercalate hlines (ends_cons (by decide) _) (hclose.newLine level)
    simp only [Frame.tokens, List.cons_append, List.append_assoc] at hbody ⊢
    exact hopen hbody

mutual

theorem prints_prettyAt (level : Nat) : ∀ v : Json, Prints (prettyAt level v) v.tokens
  | .null => fun _ hrest => .token (t := ['u', 'l', 'l']) rfl rfl hrest
  | .natural n => fun hends hrest => hrest.digits hends n
  | .string t => fun _ hrest => hrest.quoted t
  | .array items => prints_block .array (forall₂_prettyItems (level + 1) items)
  | .object members => prints_block .object (forall₂_prettyMembers (level + 1) members)

theorem forall₂_prettyItems (level : Nat) :
    ∀ items, List.Forall₂ Prints (prettyItems level items) (itemTokens items)
  | [] => .nil
  | item :: items => .cons (prints_prettyAt level item) (forall₂_prettyItems level items)

theorem forall₂_prettyMembers (level : Nat) :
    ∀ members, List.Forall₂ Prints (prettyMembers level members) (memberTokens members)
  | [] => .nil
  | (key, value) :: members => by
    refine .cons ?_ (forall₂_prettyMembers level members)
    intro rest us hends hrest
    simp only [keyed, List.append_assoc, List.cons_append, List.nil_append]
    exact ((prints_prettyAt level value hends hrest).space rfl |>.char rfl rfl).quoted key

end

/-- **Printed text is cut into the tokens of the value.** -/
theorem tokens?_pretty (v : Json) : tokens? v.pretty = some v.tokens := by
  have h : Written (v.pretty ++ []) (v.tokens ++ []) := prints_prettyAt 0 v (by rintro _ ⟨⟩) .nil
  rw [List.append_nil, List.append_nil] at h
  exact h.tokens?_eq

end Json

end WordMachine
