import WordMachine.Proofs.Config.Fields
import WordMachine.Proofs.Json.Value

/-!
# Proofs/Config/RoundTrip — a configuration is read back from its text

What is printed for a configuration is read as that configuration, if it can have so much memory.
So is every object that comes from the printed one by putting the members in another order, by
leaving out fields that have their value by default and by adding members that no field is named
like (`Rewriting`).

Each of these steps keeps what reading an object relies on (`Leads`): a field is named once at most,
with its value, and has that value already if it is not named. From there the members are read one
by one (`Leads.ofMembers_eq`): each sets its field, and the members behind it lead on from there.

Main statement: `ofJson_toJson`.
-/

namespace WordMachine

namespace Config

open Json (Token IsValue keyed)

variable {c c' : Config} {f : Field} {n : Nat} {key : Text} {value : List Token}
  {given : List Field}

/-! ## Members -/

/-- A member of an object: its key, and the tokens of its value. -/
abbrev Member := Text × List Token

/-- The tokens of an object. -/
def objectTokens (ms : List Member) : List Token :=
  Json.Frame.object.tokens (ms.map fun m => keyed (some m.1) m.2)

/-- The member that gives a field its value. -/
def member (c : Config) (f : Field) : Member := (f.name, [.natural (c.get f)])

/-- What comes from the members printed for a configuration. -/
inductive Rewriting (c : Config) : List Member → Prop where
  | printed : Rewriting c (Field.all.map c.member)
  | permute {ms ms' : List Member} (hperm : ms.Perm ms') (h : Rewriting c ms) : Rewriting c ms'
  /-- A field that has its value by default is left out. -/
  | drop (front back : List Member) (f : Field) (hf : c.get f = ({} : Config).get f)
      (h : Rewriting c (front ++ c.member f :: back)) : Rewriting c (front ++ back)
  /-- A member is added that no field is named like. -/
  | add (front back : List Member) (key : Text) {value : List Token}
      (hkey : ∀ f : Field, f.name ≠ key) (hvalue : IsValue value)
      (h : Rewriting c (front ++ back)) : Rewriting c (front ++ (key, value) :: back)

/-- The fields that members name. -/
def named (ms : List Member) : List Field := ms.filterMap fun m => Field.ofName? m.1

/-- Reading the members leads from one configuration to another. -/
structure Leads (c c' : Config) (ms : List Member) : Prop where
  /-- No field is named twice. -/
  once : (named ms).Nodup
  field : ∀ m ∈ ms, ∀ f, Field.ofName? m.1 = some f → m.2 = [.natural (c'.get f)]
  other : ∀ m ∈ ms, Field.ofName? m.1 = none → IsValue m.2
  /-- What is not read has its value already. -/
  unnamed : ∀ f ∉ named ms, c.get f = c'.get f

variable {m : Member} {front back ms ms' : List Member}

/-! ## Rewriting an object -/

theorem named_append_cons (front back : List Member) (m : Member) :
    named (front ++ m :: back) = named front ++ (Field.ofName? m.1).toList ++ named back := by
  cases h : Field.ofName? m.1 with
  | none => simp [named, h]
  | some f => simp [named, h]

theorem leads_printed (c c' : Config) : Leads c c' (Field.all.map c'.member) where
  once := by
    have hnamed : named (Field.all.map c'.member) = Field.all := by
      simp [named, List.filterMap_map, Function.comp_def, member, Field.ofName?_name]
    rw [hnamed]
    decide
  field m hm g hg := by
    obtain ⟨f, -, rfl⟩ := List.mem_map.mp hm
    rw [member, Field.ofName?_name] at hg
    cases hg
    rfl
  other m hm hnone := by
    obtain ⟨f, -, rfl⟩ := List.mem_map.mp hm
    rw [member, Field.ofName?_name] at hnone
    cases hnone
  unnamed f hf := by
    refine absurd (List.mem_filterMap.mpr ⟨c'.member f, ?_, Field.ofName?_name f⟩) hf
    exact List.mem_map_of_mem f.mem_all

theorem Leads.permute (h : Leads c c' ms) (hperm : ms.Perm ms') : Leads c c' ms' where
  once := (hperm.filterMap _).nodup_iff.mp h.once
  field m hm := h.field m (hperm.mem_iff.mpr hm)
  other m hm := h.other m (hperm.mem_iff.mpr hm)
  unnamed f hf := h.unnamed f fun hmem => hf ((hperm.filterMap _).mem_iff.mp hmem)

theorem Leads.drop (h : Leads c c' (front ++ c'.member f :: back)) (hf : c.get f = c'.get f) :
    Leads c c' (front ++ back) := by
  have hsub : (front ++ back).Sublist (front ++ c'.member f :: back) :=
    (List.sublist_cons_self _ _).append_left front
  refine ⟨h.once.sublist (hsub.filterMap _), fun m hm => h.field m (hsub.mem hm),
    fun m hm => h.other m (hsub.mem hm), fun g hg => ?_⟩
  by_cases hgf : g = f
  · rw [hgf, hf]
  · refine h.unnamed g fun hmem => hg ?_
    rw [named_append_cons, member, Field.ofName?_name] at hmem
    simpa [named, hgf] using hmem

theorem Leads.add (h : Leads c c' (front ++ back)) (hkey : Field.ofName? key = none)
    (hvalue : IsValue value) : Leads c c' (front ++ (key, value) :: back) := by
  have hnamed : named (front ++ (key, value) :: back) = named (front ++ back) := by
    simp [named, hkey]
  have hmem {m : Member} (hm : m ∈ front ++ (key, value) :: back) :
      m = (key, value) ∨ m ∈ front ++ back := by
    simp only [List.mem_append, List.mem_cons] at hm ⊢
    tauto
  refine ⟨hnamed ▸ h.once, fun m hm f hf => ?_, fun m hm hnone => ?_, hnamed ▸ h.unnamed⟩
  · rcases hmem hm with rfl | hm
    · rw [hkey] at hf
      cases hf
    · exact h.field m hm f hf
  · rcases hmem hm with rfl | hm
    · exact hvalue
    · exact h.other m hm hnone

/-- **What is printed, in whatever way it is rewritten, leads to the configuration.** -/
theorem Rewriting.leads (h : Rewriting c ms) : Leads {} c ms := by
  induction h with
  | printed => exact leads_printed {} c
  | permute hperm _ ih => exact ih.permute hperm
  | drop _ _ _ hf _ ih => exact ih.drop hf.symm
  | add _ _ _ hkey hvalue _ ih => exact ih.add (Field.ofName?_eq_none hkey) hvalue

/-! ## Reading the members -/

theorem Leads.cons_field (h : Leads c c' (m :: ms)) (hf : Field.ofName? m.1 = some f) :
    Leads (c.set f (c'.get f)) c' ms := by
  have hnamed : named (m :: ms) = f :: named ms := List.filterMap_cons_some hf
  refine ⟨(List.nodup_cons.mp (hnamed ▸ h.once)).2,
    fun m hm => h.field m (List.mem_cons_of_mem _ hm),
    fun m hm => h.other m (List.mem_cons_of_mem _ hm), fun g hg => ?_⟩
  by_cases hgf : g = f
  · rw [hgf, get_set_self (c'.get_lt_range f)]
  · rw [get_set_of_ne hgf]
    exact h.unnamed g (by simp [hnamed, hgf, hg])

theorem Leads.cons_other (h : Leads c c' (m :: ms)) (hnone : Field.ofName? m.1 = none) :
    Leads c c' ms := by
  have hnamed : named (m :: ms) = named ms := List.filterMap_cons_none hnone
  exact ⟨hnamed ▸ h.once, fun m hm => h.field m (List.mem_cons_of_mem _ hm),
    fun m hm => h.other m (List.mem_cons_of_mem _ hm), hnamed ▸ h.unnamed⟩

theorem Leads.eq_of_nil (h : Leads c c' []) : c = c' :=
  ext_get fun f => h.unnamed f List.not_mem_nil

/-- What comes behind a member: a comma and more members, or the end. -/
def goOn (given : List Field) (c : Config) : List Token → Option Config
  | .comma :: rest => ofMembers given c rest
  | [.closeObject] => some c
  | _ => none

theorem ofMembers_field (hkey : Field.ofName? key = some f) (hgiven : f ∉ given)
    (hn : n < f.range) (rest : List Token) :
    ofMembers given c (keyed (some key) [.natural n] ++ rest) =
      goOn (f :: given) (c.set f n) rest := by
  have hvalue : f.value? (.natural n) = some n := if_pos hn
  cases rest with
  | nil => simp [keyed, ofMembers, hkey, goOn]
  | cons separator rest =>
    simp only [keyed, List.cons_append, List.nil_append]
    rw [ofMembers, hkey]
    simp only [if_neg hgiven, hvalue]
    cases separator
    case closeObject => cases rest <;> rfl
    all_goals rfl

theorem ofMembers_other (hkey : Field.ofName? key = none) (hvalue : IsValue value)
    (rest : List Token) :
    ofMembers given c (keyed (some key) value ++ rest) = goOn given c rest := by
  have hskip := Json.skipValue?_append hvalue rest
  rw [keyed, List.cons_append, List.cons_append, ofMembers, hkey]
  dsimp only
  split
  · next heq =>
    rw [hskip] at heq
    cases heq
    rfl
  · next heq =>
    rw [hskip] at heq
    cases heq
    rfl
  · next hcomma hclose =>
    unfold goOn
    split
    · exact absurd hskip (hcomma _)
    · exact absurd hskip hclose
    · rfl

/-- **One member is read**, and the others still lead to the same configuration. -/
theorem Leads.ofMembers_cons (h : Leads c c' (m :: ms))
    (hgiven : ∀ f ∈ named (m :: ms), f ∉ given) :
    ∃ given₁ c₁, (Leads c₁ c' ms ∧ ∀ f ∈ named ms, f ∉ given₁) ∧
      ∀ rest, ofMembers given c (keyed (some m.1) m.2 ++ rest) = goOn given₁ c₁ rest := by
  cases hkey : Field.ofName? m.1 with
  | none =>
    have hnamed : named (m :: ms) = named ms := List.filterMap_cons_none hkey
    exact ⟨given, c, ⟨h.cons_other hkey, hnamed ▸ hgiven⟩,
      ofMembers_other hkey (h.other m List.mem_cons_self hkey)⟩
  | some f =>
    have hnamed : named (m :: ms) = f :: named ms := List.filterMap_cons_some hkey
    have honce := List.nodup_cons.mp (hnamed ▸ h.once)
    rw [hnamed, List.forall_mem_cons] at hgiven
    refine ⟨f :: given, c.set f (c'.get f), ⟨h.cons_field hkey, fun g hg => ?_⟩, fun rest => ?_⟩
    · have hgf : g ≠ f := fun hgf => honce.1 (hgf ▸ hg)
      simp [hgf, hgiven.2 g hg]
    · rw [h.field m List.mem_cons_self f hkey]
      exact ofMembers_field hkey hgiven.1 (c'.get_lt_range f) rest

/-- **All members are read**, one after the other. -/
theorem Leads.ofMembers_eq (h : Leads c c' (m :: ms))
    (hgiven : ∀ f ∈ named (m :: ms), f ∉ given) :
    ofMembers given c ([.comma].intercalate ((m :: ms).map fun m => keyed (some m.1) m.2) ++
      [.closeObject]) = some c' := by
  induction ms generalizing m c given with
  | nil =>
    obtain ⟨given₁, c₁, ⟨hleads, -⟩, hread⟩ := h.ofMembers_cons hgiven
    rw [List.map_singleton, List.intercalate_singleton, hread, ← hleads.eq_of_nil]
    rfl
  | cons m' ms ih =>
    obtain ⟨given₁, c₁, ⟨hleads, hfree⟩, hread⟩ := h.ofMembers_cons hgiven
    rw [List.map_cons, List.map_cons, List.intercalate_cons_cons, List.append_assoc,
      List.append_assoc, hread]
    exact ih hleads hfree

theorem Leads.ofTokens?_eq (h : Leads {} c ms) : ofTokens? (objectTokens ms) = some c := by
  cases ms with
  | nil =>
    rw [← h.eq_of_nil]
    rfl
  | cons m ms =>
    have hnone : ∀ f ∈ named (m :: ms), f ∉ ([] : List Field) := by simp
    have hobject : ofTokens? (objectTokens (m :: ms)) = ofMembers [] {}
        ([.comma].intercalate ((m :: ms).map fun m => keyed (some m.1) m.2) ++ [.closeObject]) := by
      cases ms
      all_goals rfl
    rw [hobject, h.ofMembers_eq hnone]

/-! ## Texts -/

theorem objectTokens_eq (values : List (Text × Json)) :
    objectTokens (values.map fun m => (m.1, m.2.tokens)) = (Json.object values).tokens := by
  rw [Json.tokens, Json.memberTokens_eq, objectTokens, List.map_map]
  rfl

theorem tokens?_toJson (c : Config) :
    Json.tokens? c.toJson = some (objectTokens (Field.all.map c.member)) := by
  rw [toJson, Json.tokens?_pretty, ← objectTokens_eq, List.map_map]
  rfl

/-- A configuration that a text gives can only be refused for its memory. -/
theorem ofJson_of_rewriting {text : Text} (h : Rewriting c ms)
    (htext : Json.tokens? text = some (objectTokens ms)) :
    ofJson text = c.validate.map fun _ => c := by
  rw [ofJson, htext, Option.bind_some, h.leads.ofTokens?_eq]
  cases hvalid : c.validate
  all_goals simp [hvalid, Except.map, bind, Except.bind, pure, Except.pure]

/-- **A configuration is read back from its text**, also after its object has been rewritten, if it
can have so much memory; for any other memory, the text printed for it is refused. -/
theorem ofJson_toJson (c : Config) :
    (1 ≤ c.memoryWords.toNat → c.memoryWords.toNat ≤ 0x10000 →
      ofJson c.toJson = .ok c ∧
      (∀ ms text, Rewriting c ms → Json.tokens? text = some (objectTokens ms) →
        ofJson text = .ok c) ∧
      ∀ values : List (Text × Json), Rewriting c (values.map fun m => (m.1, m.2.tokens)) →
        ofJson (Json.object values).pretty = .ok c) ∧
    (¬ (1 ≤ c.memoryWords.toNat ∧ c.memoryWords.toNat ≤ 0x10000) →
      ofJson c.toJson = .error (.memoryWords c.memoryWords)) := by
  have hprinted := ofJson_of_rewriting .printed c.tokens?_toJson
  refine ⟨fun hlow hhigh => ?_, fun hrange => ?_⟩
  · have hvalid : c.validate = .ok () := validate_eq_ok_iff.mpr ⟨hlow, hhigh⟩
    rw [hvalid] at hprinted
    refine ⟨hprinted, fun ms text h htext => ?_, fun values h => ?_⟩
    · rw [ofJson_of_rewriting h htext, hvalid]
      rfl
    · rw [ofJson_of_rewriting h (by rw [Json.tokens?_pretty, objectTokens_eq]), hvalid]
      rfl
  · rw [hprinted, c.validate_eq.trans (if_neg hrange)]
    rfl

/-- A machine with a slower clock and the display elsewhere. -/
def slowed : Config := { clockRate := 10, displayBase := 57344 }

/-- It is told in the other order, and behind a member that is no field. -/
theorem ofJson_toJson_rewritten :
    ofJson "\x7b\"x\": [true, -1.5], \"clock_rate_hz\":10,\n\"display_base\": 57344\x7d".toList =
      .ok { clockRate := 10, displayBase := 57344 } ∧
    ofJson (Json.object [("x".toList, .array [.null]), ("clock_rate_hz".toList, .natural 10),
      ("display_base".toList, .natural 57344)]).pretty =
        .ok { clockRate := 10, displayBase := 57344 } ∧
    ofJson (toJson { memoryWords := 70000 }) = .error (.memoryWords 70000) := by
  have htail : Rewriting slowed
      [slowed.member .displayBase, slowed.member .clockRate, slowed.member .cyclesPerFrame] :=
    .drop [] _ .keyboardBase rfl <| .drop [] _ .clockBase rfl <|
      .drop [] _ .memoryWords rfl .printed
  have hkept : Rewriting slowed [slowed.member .displayBase, slowed.member .clockRate] :=
    .drop [slowed.member .displayBase, slowed.member .clockRate] [] .cyclesPerFrame rfl htail
  have hvalue : IsValue [.openArray, .literal, .comma, .otherNumber, .closeArray] :=
    @IsValue.array [[.literal], [.otherNumber]]
      (List.forall_mem_cons.mpr ⟨.literal, List.forall_mem_singleton.mpr .otherNumber⟩)
  have hunknown : ∀ f : Field, f.name ≠ "x".toList := by
    intro f
    cases f
    all_goals decide
  have hadded {value : List Token} (hvalue : IsValue value) :=
    (hkept.permute (.swap _ _ [])).add [] _ "x".toList hunknown hvalue
  obtain ⟨-, htext, hpretty⟩ := (ofJson_toJson slowed).1 (by decide) (by decide)
  exact ⟨htext _ _ (hadded hvalue) rfl, hpretty _ (hadded (Json.isValue_tokens (.array [.null]))),
    (ofJson_toJson { memoryWords := 70000 }).2 (by decide)⟩

end Config

end WordMachine
