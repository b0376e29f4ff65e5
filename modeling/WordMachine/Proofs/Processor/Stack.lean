import Mathlib.Data.List.Infix
import WordMachine.Memory.Probe
import WordMachine.Proofs.Processor.Interrupts

/-!
# Proofs/Processor/Stack — the stack is a stack, also where SP passes address 0

What was pushed and popped, the latest first, is a past.  Beside the machine's stack stands one that
is a list: `outstanding` is what lies on it, and `popped` what it has given back.  In a `Disciplined`
past nothing is popped from an empty stack and there are never more words outstanding than addresses.
Then the push onto `n` words has the cell `below sp n` to itself, since up to that many cells are all
different, and the machine's stack gives back what the list does.

A pop leaves its word in the cell.  So the cells are those of the latest pushes (`pushedAt?`), and
the outstanding words are among these.  Main statement: `stack_of_past`.
-/

namespace WordMachine

namespace Word

theorem sub_ofNat_sub_one (sp : Word) (n : Nat) : sp - UInt16.ofNat n - 1 = below sp n := by
  have hone : (1 : Word).toNat = 1 := rfl
  rw [below, ← UInt16.toNat_inj]
  simp only [UInt16.toNat_sub, UInt16.toNat_ofNat']
  omega

theorem below_add_one (sp : Word) (n : Nat) : below sp n + 1 = sp - UInt16.ofNat n := by
  rw [← sub_ofNat_sub_one, UInt16.sub_add_cancel]

end Word

namespace Processor

open Word (below below_inj sub_ofNat_sub_one below_add_one)

/-- What can be asked of the stack. -/
inductive StackOperation where
  | push (w : Word)
  | pop
  deriving DecidableEq, Repr

namespace StackOperation

/-! ## The stack as a list -/

/-- The words on the stack, the one pushed last first. -/
def outstanding : List StackOperation → List Word
  | [] => []
  | push w :: past => w :: outstanding past
  | pop :: past => (outstanding past).tail

/-- The words popped, the latest first: each was the first of those outstanding. -/
def popped : List StackOperation → List Word
  | [] => []
  | push _ :: past => popped past
  | pop :: past => (outstanding past).head?.toList ++ popped past

/-- The word pushed last onto a stack of `n` words. -/
def pushedAt? (n : Nat) : List StackOperation → Option Word
  | [] => none
  | push w :: past => if (outstanding past).length = n then some w else pushedAt? n past
  | pop :: past => pushedAt? n past

def pops (past : List StackOperation) : Nat := past.count pop

def pushes (past : List StackOperation) : Nat := past.countP (· != pop)

/-- At no time were there more pops than pushes, or more words outstanding than addresses. -/
def Disciplined (past : List StackOperation) : Prop :=
  ∀ before ∈ past.tails, pops before ≤ pushes before ∧ pushes before ≤ pops before + Word.count

instance (past : List StackOperation) : Decidable (Disciplined past) :=
  inferInstanceAs (Decidable (∀ before ∈ past.tails, _))

variable {past : List StackOperation} {op : StackOperation} {n : Nat} {v w : Word}

@[simp] theorem pops_push : pops (push w :: past) = pops past := by simp [pops]

@[simp] theorem pops_pop : pops (pop :: past) = pops past + 1 := by simp [pops]

@[simp] theorem pushes_push : pushes (push w :: past) = pushes past + 1 := by simp [pushes]

@[simp] theorem pushes_pop : pushes (pop :: past) = pushes past := by simp [pushes]

namespace Disciplined

theorem now (h : Disciplined past) :
    pops past ≤ pushes past ∧ pushes past ≤ pops past + Word.count :=
  h past ((List.mem_tails _ _).mpr List.suffix_rfl)

/-- What comes before the latest operation is disciplined as well. -/
theorem before (h : Disciplined (op :: past)) : Disciplined past := by
  intro before hbefore
  refine h before ?_
  rw [List.tails_cons]
  exact List.mem_cons_of_mem _ hbefore

/-- **What was pushed and not popped is outstanding.** -/
theorem length_outstanding (h : Disciplined past) :
    (outstanding past).length + pops past = pushes past := by
  induction past with
  | nil => rfl
  | cons op past ih =>
    have hbefore := ih h.before
    have hnow := h.now
    cases op with
    | push w =>
      rw [outstanding, List.length_cons, pops_push, pushes_push]
      omega
    | pop =>
      rw [pops_pop, pushes_pop] at hnow
      rw [outstanding, List.length_tail, pops_pop, pushes_pop]
      omega

/-- A push finds an address that no word outstanding needs… -/
theorem length_lt_of_push (h : Disciplined (push w :: past)) :
    (outstanding past).length < Word.count := by
  have hnow := h.now
  have hlength := h.before.length_outstanding
  rw [pops_push, pushes_push] at hnow
  omega

/-- …and a pop a word. -/
theorem exists_of_pop (h : Disciplined (pop :: past)) : ∃ w rest, outstanding past = w :: rest := by
  have hnow := h.now
  have hlength := h.before.length_outstanding
  rw [pops_pop, pushes_pop] at hnow
  exact List.exists_cons_of_length_pos (by omega)

theorem lt_of_pushedAt? (h : Disciplined past) (hw : pushedAt? n past = some w) :
    n < Word.count := by
  induction past with
  | nil => cases hw
  | cons op past ih =>
    cases op with
    | pop => exact ih h.before hw
    | push v =>
      rw [pushedAt?] at hw
      split at hw
      · next hn => exact hn ▸ h.length_lt_of_push
      · exact ih h.before hw

end Disciplined

/-- **The outstanding words are those pushed last**, onto ever more words. -/
theorem pushedAt?_of_outstanding (hw : (outstanding past).reverse[n]? = some w) :
    pushedAt? n past = some w := by
  induction past with
  | nil => cases hw
  | cons op past ih =>
    cases op with
    | push v =>
      rw [outstanding, List.reverse_cons] at hw
      rw [pushedAt?]
      split
      · next hn =>
        rw [← hn, ← List.length_reverse, List.getElem?_concat_length] at hw
        exact hw
      · next hn =>
        have hlt := (List.getElem?_eq_some_iff.mp hw).1
        rw [List.length_append, List.length_reverse, List.length_singleton] at hlt
        rw [List.getElem?_append_left (by rw [List.length_reverse]; omega)] at hw
        exact ih hw
    | pop =>
      refine ih ?_
      rw [outstanding] at hw
      cases hstack : outstanding past with
      | nil =>
        rw [hstack] at hw
        cases hw
      | cons v rest =>
        rw [hstack, List.tail_cons] at hw
        rw [List.reverse_cons, List.getElem?_append_left (List.getElem?_eq_some_iff.mp hw).1, hw]

/-! ## The stack of a processor -/

variable {ω σ : Type}

section Actions

variable [Observer ω σ]

/-- Do what is asked, and give the word popped if one is. -/
def act : StackOperation → Action ω σ (List Word)
  | push w => do
    Processor.push w
    return []
  | pop => do
    let w ← Processor.pop
    return [w]

/-- Do all that was asked, the latest last, and give the words popped, the latest first. -/
def actAll : List StackOperation → Action ω σ (List Word)
  | [] => return []
  | op :: past => do
    let earlier ← actAll past
    let latest ← op.act
    return latest ++ earlier

end Actions

/-- What a past makes of a processor.  Registers but for SP, observers and all else beside the
memory are kept. -/
structure Stacked (p : Processor ω σ) (past : List StackOperation) (q : Processor ω σ) : Prop where
  regs : q.regs = { p.regs with sp := p.regs.sp - UInt16.ofNat (outstanding past).length }
  pushed : ∀ n w, pushedAt? n past = some w → q.word (below p.regs.sp n) = w
  elsewhere : ∀ addr, (∀ n w, pushedAt? n past = some w → below p.regs.sp n ≠ addr) →
    q.word addr = p.word addr
  capacity : q.mem.capacity = p.mem.capacity
  observer? : ∀ addr, q.mem.observer? addr = p.mem.observer? addr
  world : q.world = p.world
  cycles : q.cycles = p.cycles
  last : q.last = p.last

variable {p q : Processor ω σ}

namespace Stacked

protected theorem nil (p : Processor ω σ) : Stacked p [] p where
  regs := congrArg (fun sp => { p.regs with sp }) (UInt16.sub_zero p.regs.sp).symm
  pushed _ _ h := by cases h
  elsewhere _ _ := rfl
  capacity := rfl
  observer? _ := rfl
  world := rfl
  cycles := rfl
  last := rfl

theorem plain (h : p.Plain) (hq : Stacked p past q) : q.Plain :=
  ⟨hq.capacity.trans h.capacity, fun addr => (hq.observer? addr).trans (h.unobserved addr)⟩

/-- **A push goes to a cell that no other has gone to** since fewer words were outstanding. -/
theorem push (h : p.Plain) (hq : Stacked p past q) (hpast : Disciplined (push w :: past)) :
    Stacked p (.push w :: past) (q.put w .stack) := by
  have hsp : q.regs.sp - 1 = below p.regs.sp (outstanding past).length := by
    rw [hq.regs]
    exact sub_ofNat_sub_one _ _
  have hword : ∀ addr, (q.put w .stack).word addr =
      if below p.regs.sp (outstanding past).length = addr then w else q.word addr := by
    intro addr
    rw [← hsp]
    exact ((hq.plain h).withRegs _).word_withCell _ _ _
  refine { hq with regs := ?_, pushed := fun n v hv => ?_, elsewhere := fun addr haddr => ?_
                   capacity := (Memory.capacity_store _ _ _).trans hq.capacity }
  · change { q.regs with sp := q.regs.sp - 1 } = _
    rw [hsp, hq.regs]
    rfl
  · rw [hword]
    rw [pushedAt?] at hv
    split at hv
    · next hn => rw [if_pos (congrArg _ hn), Option.some.inj hv]
    · next hn =>
      have hne : below p.regs.sp (outstanding past).length ≠ below p.regs.sp n := fun heq =>
        hn (below_inj hpast.length_lt_of_push (hpast.before.lt_of_pushedAt? hv) heq)
      rw [if_neg hne, hq.pushed n v hv]
  · rw [hword, if_neg (haddr _ w (if_pos rfl))]
    -- A cell that some push went to before may have been pushed over, but it is among them still.
    refine hq.elsewhere addr fun n v hv heq => ?_
    by_cases hn : (outstanding past).length = n
    · exact haddr n w (if_pos hn) heq
    · exact haddr n v ((if_neg hn).trans hv) heq

/-- **A pop gives the word pushed last**, and changes no cell. -/
theorem pop {rest : List Word} (hq : Stacked p past q) (hstack : outstanding past = w :: rest) :
    (q.fetch .stack).1 = w ∧ Stacked p (.pop :: past) (q.fetch .stack).2 := by
  have hsp : q.regs.sp = below p.regs.sp rest.length := by
    rw [hq.regs, hstack]
    rfl
  have hlast : (outstanding past).reverse[rest.length]? = some w := by
    rw [hstack, List.reverse_cons, ← List.length_reverse, List.getElem?_concat_length]
  refine ⟨?_, { hq with regs := ?_ }⟩
  · change q.word q.regs.sp = w
    rw [hsp]
    exact hq.pushed _ _ (pushedAt?_of_outstanding hlast)
  · change { q.regs with sp := q.regs.sp + 1 } = _
    rw [hsp, below_add_one, hq.regs, outstanding, hstack, List.tail_cons]

end Stacked

section Actions

variable [Observer ω σ]

/-- **No operation of a disciplined past fails**, and what is popped is what the list gives. -/
theorem exists_actAll (h : p.Plain) (hpast : Disciplined past) :
    ∃ q, actAll past p = .ok (popped past) q ∧ Stacked p past q := by
  induction past with
  | nil => exact ⟨p, rfl, .nil p⟩
  | cons op past ih =>
    obtain ⟨q, hrun, hq⟩ := ih hpast.before
    cases op with
    | push w =>
      have hact : act (.push w) q = .ok [] (q.put w .stack) :=
        bind_of_ok ((hq.plain h).push_eq w)
      refine ⟨_, ?_, hq.push h hpast⟩
      rw [actAll, bind_of_ok hrun, bind_of_ok hact]
      rfl
    | pop =>
      obtain ⟨w, rest, hstack⟩ := hpast.exists_of_pop
      obtain ⟨hw, hpopped⟩ := hq.pop hstack
      have hact : act .pop q = .ok [w] (q.fetch .stack).2 := by
        rw [← hw]
        exact bind_of_ok (hq.plain h).pop_eq
      refine ⟨_, ?_, hpopped⟩
      rw [actAll, bind_of_ok hrun, bind_of_ok hact, popped, hstack]
      rfl

/-- **The stack of a processor is the list of its outstanding words.**  Whatever is pushed and popped
within discipline, no operation fails, the words popped are those of the list, and SP is as far below
its first value as there are words outstanding.  These are in the cells just below, where each push
goes to the cell that the number of words then outstanding gives; such a cell holds what was pushed
to it last, whether that was popped or not, and every other cell holds what it held. -/
theorem stack_of_past (h : p.Plain) (hpast : Disciplined past) :
    ∃ q, actAll past p = .ok (popped past) q ∧
      (outstanding past).length + pops past = pushes past ∧
      q.regs = { p.regs with sp := p.regs.sp - UInt16.ofNat (outstanding past).length } ∧
      (∀ n w, (outstanding past).reverse[n]? = some w → q.word (below p.regs.sp n) = w) ∧
      (∀ n w, pushedAt? n past = some w → q.word (below p.regs.sp n) = w) ∧
      (∀ addr, (∀ n w, pushedAt? n past = some w → below p.regs.sp n ≠ addr) →
        q.word addr = p.word addr) ∧
      q.Plain ∧ q.world = p.world ∧ q.cycles = p.cycles ∧ q.last = p.last := by
  obtain ⟨q, hrun, hq⟩ := exists_actAll h hpast
  refine ⟨q, hrun, hpast.length_outstanding, hq.regs, fun n w hw => ?_, hq.pushed, hq.elsewhere,
    hq.plain h, hq.world, hq.cycles, hq.last⟩
  exact hq.pushed n w (pushedAt?_of_outstanding hw)

end Actions

/-- Six is pushed, seven is pushed and popped, eight is pushed, and nine is pushed and popped. -/
def juggled : List StackOperation := [pop, push 9, push 8, pop, push 7, push 6]

/-- The second word pushed goes from the first address to the last. -/
theorem stack_of_past_juggled :
    ∃ q, actAll juggled ((ofWords {} [] : Processor Probe Probe.Log).withRegs { sp := 1 }) =
        .ok [9, 7] q ∧
      q.regs.sp = 0xFFFF ∧ q.word 0 = 6 ∧ q.word 0xFFFF = 8 ∧ q.word 0xFFFE = 9 := by
  have hplain : ((ofWords {} [] : Processor Probe Probe.Log).withRegs { sp := 1 }).Plain :=
    (plain_ofWords _ _).withRegs _
  obtain ⟨q, hrun, -, hregs, houtstanding, hpushed, -⟩ :=
    stack_of_past hplain (show Disciplined juggled by decide)
  refine ⟨q, hrun, ?_, houtstanding 0 6 rfl, houtstanding 1 8 rfl, hpushed 2 9 rfl⟩
  rw [hregs]
  rfl

/-- A word that was pushed and popped is no longer outstanding, and its cell has changed. -/
theorem not_kept_of_popped :
    ¬ ∀ (p : Processor Probe Probe.Log) (past : List StackOperation), p.Plain → Disciplined past →
      ∃ q, actAll past p = .ok (popped past) q ∧
        q.regs.sp = p.regs.sp - UInt16.ofNat (outstanding past).length ∧
        (∀ n w, (outstanding past).reverse[n]? = some w → q.word (below p.regs.sp n) = w) ∧
        ∀ addr, (∀ n < (outstanding past).length, below p.regs.sp n ≠ addr) →
          q.word addr = p.word addr := by
  intro hkept
  have hplain : (ofWords {} [] : Processor Probe Probe.Log).Plain := plain_ofWords _ _
  have hpast : Disciplined [pop, push 7] := by decide
  obtain ⟨q, hrun, -, -, helsewhere⟩ := hkept _ _ hplain hpast
  obtain ⟨r, hrun', hstacked⟩ := exists_actAll hplain hpast
  obtain rfl : q = r := by
    rw [hrun] at hrun'
    cases hrun'
    rfl
  have hzero : (ofWords {} [] : Processor Probe Probe.Log).word 0xFFFE = 0 := by
    change ((Memory.ofCapacity Word.count : Memory Probe).cell? 0xFFFE).getD 0 = 0
    rw [Memory.cell?_ofCapacity]
    rfl
  have hseven : q.word 0xFFFE = 7 := hstacked.pushed 0 7 rfl
  rw [helsewhere 0xFFFE fun n hn => absurd hn (Nat.not_lt_zero n), hzero] at hseven
  cases hseven

end StackOperation

end Processor

end WordMachine
