import WordMachine.Proofs.Computer.Reachable
import WordMachine.Proofs.Processor.Fault

/-!
# Proofs/Computer/Sync — when the watched picture is the one the display shows

An operation that lets the wires follow the display leaves a computer `Synced` if it succeeds, and
is cut short before it has moved a wire if it fails (`Tracks`).  So a run that faults after it has
pointed the display elsewhere leaves the old picture watched, and so does an interrupt that is
pushed onto the display's registers by a key press.  What goes to the new picture does not make the
display dirty then.

Main statement: `synced_of_reachable`.
-/

namespace WordMachine

open Bus (Board)

namespace Computer

variable {α β : Type}

/-! ## The watched picture -/

/-- The computer is synced if the action succeeds, and watches what it did if it fails. -/
structure Tracks (f : Action α) : Prop where
  ok : ∀ {c : Computer}, c.Furnished → ∀ {a : α} {c' : Computer}, f c = .ok a c' → c'.Synced
  error : ∀ {c : Computer}, c.Furnished → ∀ {e : Error} {c' : Computer}, f c = .error e c' →
    c'.watched = c.watched

/-- Rewiring does not fail. -/
theorem rewire_ne_error {c c' : Computer} (h : c.Wired) {e : Error} : rewire c ≠ .error e c' := by
  obtain ⟨mem, hmoved, -, -⟩ := exists_rewire h
  rw [hmoved]
  intro heq
  cases heq

theorem tracks_rewire : Tracks rewire where
  ok := by
    intro c h a c' hrewire
    obtain ⟨mem, hmoved, -, -⟩ := exists_rewire h.toWired
    rw [hmoved] at hrewire
    cases hrewire
    rfl
  error := by
    intro c h e c' hrewire
    exact absurd hrewire (rewire_ne_error h.toWired)

/-- What watches as before may come first. -/
theorem Tracks.bind {f : Action α} {k : α → Action β} (hf : Keeps Furnished f)
    (hwatched : ∀ picture, Keeps (fun c => c.watched = picture) f) (hk : ∀ a, Tracks (k a)) :
    Tracks (f >>= k) where
  ok := by
    intro c h b c' hbind
    obtain ⟨a, d, hd, hc'⟩ := exists_of_bind_ok hbind
    exact (hk a).ok (hf.of_ok h hd) hc'
  error := by
    intro c h e c' hbind
    rcases of_bind_error hbind with hfirst | ⟨a, d, hfirst, hlast⟩
    · exact (hwatched c.watched).of_error rfl hfirst
    · exact ((hk a).error (hf.of_ok h hfirst) hlast).trans ((hwatched c.watched).of_ok rfl hfirst)

/-- The answer may be changed afterwards. -/
theorem Tracks.map {f : Action α} (hf : Tracks f) (g : α → β) :
    Tracks (do let a ← f; return g a) where
  ok := by
    intro c h b c' hbind
    obtain ⟨a, d, hd, hc'⟩ := exists_of_bind_ok hbind
    cases hc'
    exact hf.ok h hd
  error := by
    intro c h e c' hbind
    exact hf.error h (of_map_error hbind)

theorem keeps_watched_onBoard (act : Board.Action α) (picture : Option Span) :
    Keeps (fun c => c.watched = picture) (onBoard act) :=
  keeps_beside_onBoard (fun _ _ h => h) act

theorem keeps_watched_onMemory (wrap : Memory.Error → Error) (access : Memory.Access Wire Bus α)
    (picture : Option Span) : Keeps (fun c => c.watched = picture) (onMemory wrap access) :=
  keeps_beside_onMemory (fun _ _ h => h) wrap access

theorem tracks_loadImage (words : List Word) : Tracks (loadImage words) :=
  .bind (keeps_onMemory fun _ => SameWiring.keeps_load 0 words)
    (keeps_watched_onMemory _ _) fun _ =>
    .bind (.modify fun _ h => h.reset) (fun _ => .modify fun _ h => h) fun _ =>
    tracks_rewire

theorem tracks_loadAssembly (source : Text) : Tracks (loadAssembly source) := by
  unfold loadAssembly
  split
  · refine ⟨fun _ _ _ h => ?_, fun _ _ _ h => ?_⟩
    · cases h
    · cases h
      rfl
  · exact (tracks_loadImage _).map _

theorem tracks_tickDevices : Tracks tickDevices :=
  .bind .get (fun _ => .get) fun c =>
    .bind (keeps_onBoard (Bus.uniform_tick c.now)) (keeps_watched_onBoard _) fun _ => tracks_rewire

theorem tracks_run (n : Nat) : Tracks (run n) :=
  .bind (keeps_onBoard (Bus.uniform_exec n)) (keeps_watched_onBoard _) fun _ => tracks_tickDevices

theorem tracks_step : Tracks step :=
  .bind (keeps_onBoard Bus.uniform_step) (keeps_watched_onBoard _) fun _ => tracks_rewire.map _

/-- **An operation that lets the wires follow tracks the display**… -/
theorem Operation.tracks {op : Operation} (h : op.rewires = true) : Tracks op.act := by
  cases op with
  | loadAssembly source => exact (tracks_loadAssembly source).map _
  | loadImage words => exact tracks_loadImage words
  | run n => exact tracks_run n
  | runFrame => exact .bind .get (fun _ => .get) fun _ => tracks_run _
  | step => exact tracks_step.map _
  | tickDevices => exact tracks_tickDevices
  | _ => cases h

theorem watched_takeDirty (c : Computer) : c.takeDirty.2.watched = c.watched := by
  unfold takeDirty
  split
  · rfl
  · rfl

/-- …and any other watches the picture that was watched before. -/
theorem Operation.keeps_watched {op : Operation} (h : op.rewires = false) (picture : Option Span) :
    Keeps (fun c => c.watched = picture) op.act := by
  cases op with
  | reset => exact .modify fun _ h => h
  | keyDown code => exact (keeps_watched_onBoard _ _).bind fun _ => .pure ()
  | keyUp code => exact .modify fun _ h => h
  | takeDirty => exact .modify fun c h => (watched_takeDirty c).trans h
  | advance nanoseconds => exact .modify fun _ h => h
  | setRegisters regs => exact keeps_watched_onBoard (Processor.onRegs fun _ => regs) _
  | read addr => exact (keeps_watched_onMemory _ _ _).bind fun _ => .pure ()
  | write addr value => exact keeps_watched_onMemory _ _ _
  | load addr words => exact keeps_watched_onMemory _ _ _
  | clear => exact .modify fun _ h => h
  | _ => cases h

/-- **When a computer is synced after an operation**: the operation has let the wires follow and
succeeded, or the display shows the picture that was watched before. -/
theorem Furnished.synced_after_iff {c : Computer} (h : c.Furnished) (op : Operation) :
    (op.after c).Synced ↔
      op.rewires = true ∧ op.succeeds c = true ∨ (op.after c).display.window? = c.watched := by
  cases hrewires : op.rewires with
  | false =>
    have hwatched : (op.after c).watched = c.watched :=
      keeps_iff.mp (op.keeps_watched hrewires c.watched) c rfl
    simp only [Synced, hwatched, Bool.false_eq_true, false_and, false_or, eq_comm]
  | true =>
    have htracks := op.tracks hrewires
    cases hsucceeds : op.succeeds c with
    | true =>
      have hsynced := htracks.ok h (Operation.act_of_succeeds hsucceeds)
      simp only [hsynced, and_self, true_or]
    | false =>
      obtain ⟨e, hend⟩ := Operation.act_of_not_succeeds hsucceeds
      simp only [Synced, htracks.error h hend, Bool.false_eq_true, and_false, false_or, eq_comm]

/-! ## Operations that leave the display alone when they fail -/

theorem loadImage_eq_error {c c' : Computer} (h : c.Furnished) {words : List Word} {e : Error}
    (hload : loadImage words c = .error e c') : c' = c := by
  cases hstored : Memory.load 0 words (c.board.mem, c.board.world) with
  | error e' s =>
    have hsame : s = (c.board.mem, c.board.world) := by
      unfold Memory.load at hstored
      split at hstored
      · split at hstored
        · cases hstored
        · cases hstored
          rfl
      · cases hstored
        rfl
    have hmemory : onMemory .memory (Memory.load 0 words) c = .error (.memory e') c := by
      rw [onMemory_eq]
      simp only [hstored, hsame]
    rw [loadImage, bind_of_error hmemory] at hload
    cases hload
    rfl
  | ok a s =>
    obtain ⟨d, hd⟩ : ∃ d, onMemory .memory (Memory.load 0 words) c = .ok a d := by
      rw [onMemory_eq]
      simp only [hstored]
      exact ⟨_, rfl⟩
    have hfurnished : d.Furnished :=
      (keeps_onMemory fun _ => SameWiring.keeps_load 0 words).of_ok h hd
    rw [loadImage, bind_of_ok hd] at hload
    exact absurd hload (rewire_ne_error hfurnished.reset.toWired)

theorem loadAssembly_eq_error {c c' : Computer} (h : c.Furnished) {source : Text} {e : Error}
    (hload : loadAssembly source c = .error e c') : c' = c := by
  cases hsource : Assembly.assemble? source with
  | error e' =>
    simp only [loadAssembly, hsource] at hload
    cases hload
    rfl
  | ok program =>
    simp only [loadAssembly, hsource] at hload
    exact loadImage_eq_error h (of_map_error hload)

/-- A read leaves a display as it is. -/
theorem display_asked {bus : Bus} {d : Display} (hd : bus.devices[displaySlot]? = some (.display d))
    (mem : Memory Wire) (addr : Nat) :
    (mem.asked addr bus).2.devices[displaySlot]? = some (.display d) := by
  unfold Memory.asked
  cases mem.observer? addr with
  | none => exact hd
  | some wire =>
    cases wire with
    | screen slot => exact hd
    | register slot number =>
      change (Wire.onRead (.register slot number) bus).2.devices[displaySlot]? = _
      simp only [Wire.onRead]
      split
      · exact hd
      · cases hdevice : bus.devices[slot]? with
        | none => exact hd
        | some device =>
          simp only [Bus.getElem?_setDevice]
          split
          · next heq =>
            subst heq
            cases hd.symm.trans hdevice
            rw [hd]
            rfl
          · exact hd

theorem keeps_display_read (d : Display) (addr : Nat) :
    Keeps (fun s : Memory Wire × Bus => s.2.devices[displaySlot]? = some (.display d))
      (Memory.read addr) :=
  Memory.keeps_read_of fun mem _ _ hd => display_asked hd mem addr

/-- **A step that fails has left the display as it was.** -/
theorem display_of_step_error {c c' : Computer} (h : c.Furnished) {e : Error}
    (hstep : step c = .error e c') : c'.display = c.display := by
  obtain ⟨d, hd⟩ := h.display
  cases hend : Processor.step c.board with
  | error fault board =>
    rw [step, bind_of_error (onBoard_of_error hend)] at hstep
    cases hstep
    have hd' : board.world.devices[displaySlot]? = some (.display d) :=
      Processor.spares_step (keeps_display_read d) hd hend
    rw [display, display, hd, hd']
  | ok i board =>
    have hboard := onBoard_of_ok hend
    have hfurnished := (keeps_onBoard Bus.uniform_step).of_ok h hboard
    rw [step, bind_of_ok hboard] at hstep
    exact absurd (of_map_error hstep) (rewire_ne_error hfurnished.toWired)

/-- …and so has any steady operation that fails. -/
theorem Operation.display_of_error {c c' : Computer} (h : c.Furnished) {op : Operation}
    (hsteady : op.steady = true) {e : Error} (hend : op.act c = .error e c') :
    c'.display = c.display := by
  cases op with
  | loadAssembly source => rw [loadAssembly_eq_error h (of_map_error hend)]
  | loadImage words => rw [loadImage_eq_error h hend]
  | step => exact display_of_step_error h (of_map_error hend)
  | reset => cases hend
  | _ => cases hsteady

/-- **Loads, steps and resets keep a computer synced**, also when they fail. -/
theorem Furnished.synced_after {c : Computer} (h : c.Furnished) (hsync : c.Synced) {op : Operation}
    (hsteady : op.steady = true) : (op.after c).Synced := by
  rw [h.synced_after_iff]
  cases hsucceeds : op.succeeds c with
  | true =>
    cases op with
    | loadAssembly | loadImage | step => exact .inl ⟨rfl, rfl⟩
    | reset => exact .inr hsync.symm
    | _ => cases hsteady
  | false =>
    obtain ⟨e, hend⟩ := Operation.act_of_not_succeeds hsucceeds
    right
    rw [Operation.display_of_error h hsteady hend]
    exact hsync.symm

/-! ## Stores to the picture -/

/-- **A store outside all windows makes the display dirty if it goes to the watched picture**, and
leaves it as it is if not. -/
theorem Furnished.exists_write {c : Computer} (h : c.Furnished) {addr : Word} (w : Word)
    (haddr : addr.toNat < c.mem.capacity)
    (hnone : ∀ v ∈ c.board.world.windows, ¬ v.Holds addr.toNat) :
    ∃ board, Processor.write addr w c.board = .ok () board ∧
      ({ c with board } : Computer).display =
        if c.watched.any (·.contains addr.toNat) then c.display.markDirty else c.display := by
  refine ⟨_, Processor.write_eq haddr w, ?_⟩
  obtain ⟨d, hd⟩ := h.display
  have hidle : c.board.world.isBusy displaySlot = false := by
    simpa [Bus.isBusy] using h.idle
  have hwire : c.board.mem.observer? addr.toNat = screenWire? c.watched addr.toNat := by
    refine (h.observer?_eq _ haddr).trans ?_
    rw [wire?, Bus.wire?_eq_none hnone]
    rfl
  by_cases hwatched : c.watched.any (·.contains addr.toNat) = true
  · rw [screenWire?, if_pos hwatched] at hwire
    have htold : c.board.mem.told addr.toNat w c.board.world =
        c.board.world.setDevice displaySlot (.display d.markDirty) := by
      rw [Memory.told, hwire]
      change (Wire.screen displaySlot).onWrite w c.board.world = _
      simp only [Wire.onWrite, hidle, hd]
    rw [if_pos hwatched, htold, display_eq hd]
    refine display_eq ?_
    rw [Bus.getElem?_setDevice, if_pos rfl, hd]
    rfl
  · rw [screenWire?, if_neg hwatched] at hwire
    have htold : c.board.mem.told addr.toNat w c.board.world = c.board.world := by
      rw [Memory.told, hwire]
    rw [if_neg hwatched, htold]
    rfl

/-! ## Reachable computers -/

/-- **When a reachable computer watches the display's picture.**  After an operation it does so
exactly if the operation has let the wires follow and succeeded, or the display shows the picture
that was watched before; loads, steps and resets never lose it.  A store outside all windows makes
the display dirty if it goes to the picture watched then, and only then. -/
theorem synced_of_reachable {c : Computer} (h : Reachable c) (op : Operation) :
    ((op.after c).Synced ↔
        op.rewires = true ∧ op.succeeds c = true ∨ (op.after c).display.window? = c.watched) ∧
      (c.Synced → op.steady = true → (op.after c).Synced) ∧
      ∀ addr w : Word, addr.toNat < (op.after c).mem.capacity →
        (∀ v ∈ (op.after c).board.world.windows, ¬ v.Holds addr.toNat) →
        ∃ board, Processor.write addr w (op.after c).board = .ok () board ∧
          ({ op.after c with board } : Computer).display =
            if (op.after c).watched.any (·.contains addr.toNat) then (op.after c).display.markDirty
            else (op.after c).display := by
  have hc := furnished_of_reachable h
  refine ⟨hc.synced_after_iff op, fun hsync hsteady => hc.synced_after hsync hsteady, ?_⟩
  exact fun addr w haddr hnone => (hc.after op).exists_write w haddr hnone

/-- A computer whose run has moved the picture and then faulted. -/
def stale : Computer := (Operation.run 3).after loaded

/-- Nobody has told its wires, and a word stored in the new picture goes unseen. -/
theorem not_synced_stale :
    loaded.Synced ∧ ¬ stale.Synced ∧ (Operation.takeDirty.after stale).display.window? =
      some ⟨16, 400⟩ ∧ ∃ board,
        Processor.write 16 65 (Operation.takeDirty.after stale).board = .ok () board ∧
          ({ Operation.takeDirty.after stale with board } : Computer).display.dirty = false := by
  have hstale : Reachable stale := .after _ reachable_loaded
  have hfault : (Operation.run 3).succeeds loaded = false := by decide +kernel
  have hmoved : stale.display.window? ≠ loaded.watched := by decide +kernel
  have hcapacity : 16 < (Operation.takeDirty.after stale).mem.capacity := by decide +kernel
  have hnone : ∀ v ∈ (Operation.takeDirty.after stale).board.world.windows, ¬ v.Holds 16 := by
    decide +kernel
  have hwatched : (Operation.takeDirty.after stale).watched = none := by decide +kernel
  have hclean : (Operation.takeDirty.after stale).display.dirty = false := by decide +kernel
  refine ⟨by decide +kernel, fun hsync => ?_, by decide +kernel, ?_⟩
  · rcases (synced_of_reachable reachable_loaded (.run 3)).1.mp hsync with ⟨-, hok⟩ | hwindow
    · rw [hfault] at hok
      cases hok
    · exact hmoved hwindow
  · obtain ⟨board, hwrite, hdisplay⟩ :=
      (synced_of_reachable hstale .takeDirty).2.2 16 65 hcapacity hnone
    refine ⟨board, hwrite, ?_⟩
    rw [hdisplay, hwatched, if_neg (by decide)]
    exact hclean

end Computer

end WordMachine
