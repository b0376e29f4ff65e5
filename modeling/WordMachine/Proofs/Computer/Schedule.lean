import WordMachine.Proofs.Computer.Stepping
import WordMachine.Proofs.Computer.Sync

/-!
# Proofs/Computer/Schedule — instructions in frames, with a tick after each

A `schedule` of `n` instructions is as many whole frames as there are in `n`, each with a tick of
the devices at its end, and then the instructions that are left.  A loop that counts the
instructions since the last tick keeps to it (`paced_eq_schedule`).  So does a computer that runs
whole frames and lets its wires follow only at their ends, unless a fault comes in between
(`runFrames_eq_ok_iff`).
-/

namespace WordMachine

open Bus (Board)

namespace Computer

/-- `k` frames, with a tick of the devices after each. -/
def frames (frame : Nat) : (k : Nat) → Action Unit
  | 0 => return
  | k + 1 => do
    steps frame
    tickDevices
    frames frame k

/-- `n` instructions, with a tick of the devices after every full frame. -/
def schedule (frame n : Nat) : Action Unit := do
  frames frame (n / frame)
  steps (n % frame)

/-- `n` instructions that come after `since` others in their frame. -/
def paced (frame : Nat) : (since n : Nat) → Action Unit
  | _, 0 => return
  | since, n + 1 => do
    let _ ← step
    if frame ≤ since + 1 then
      tickDevices
      paced frame 0 n
    else paced frame (since + 1) n

/-- Run `k` frames. -/
def runFrames : (k : Nat) → Action Unit
  | 0 => return
  | k + 1 => do
    runFrame
    runFrames k

variable {frame since : Nat}

/-! ## Counting -/

theorem steps_add (m n : Nat) : steps (m + n) = (do steps m; steps n) := by
  induction m with
  | zero => rw [Nat.zero_add, steps, pure_bind]
  | succ m ih =>
    rw [Nat.succ_add, steps, steps, bind_assoc]
    simp only [ih]

/-- Within a frame the devices do not tick. -/
theorem paced_add_of_lt {j : Nat} (h : since + j < frame) (n : Nat) :
    paced frame since (j + n) = (do steps j; paced frame (since + j) n) := by
  induction j generalizing since with
  | zero => rw [Nat.zero_add, steps, pure_bind, Nat.add_zero]
  | succ j ih =>
    rw [Nat.succ_add, paced, if_neg (by omega), ih (by omega), steps, bind_assoc]
    simp only [Nat.add_comm 1, Nat.add_assoc]

/-- **At the end of a frame they tick**, and the count starts again. -/
theorem paced_frame_add (hframe : 0 < frame) (n : Nat) :
    paced frame 0 (frame + n) = (do steps frame; tickDevices; paced frame 0 n) := by
  obtain ⟨j, rfl⟩ := Nat.exists_eq_add_of_lt hframe
  have hlast : paced (0 + j + 1) (0 + j) (1 + n) =
      (do steps 1; tickDevices; paced (0 + j + 1) 0 n) := by
    rw [Nat.add_comm 1 n, paced, if_pos (Nat.le_refl _)]
    simp only [steps, bind_assoc, pure_bind]
  rw [show 0 + j + 1 + n = j + (1 + n) by omega, paced_add_of_lt (by omega), hlast,
    show 0 + j + 1 = j + 1 by omega, steps_add, bind_assoc]

theorem paced_frames_add (hframe : 0 < frame) (k n : Nat) :
    paced frame 0 (k * frame + n) = (do frames frame k; paced frame 0 n) := by
  induction k with
  | zero => rw [Nat.zero_mul, Nat.zero_add, frames, pure_bind]
  | succ k ih =>
    rw [Nat.succ_mul, Nat.add_comm _ frame, Nat.add_assoc, paced_frame_add hframe, ih, frames]
    simp only [bind_assoc]

/-- **A loop that counts the instructions since the last tick keeps to the schedule.** -/
theorem paced_eq_schedule (hframe : 0 < frame) (n : Nat) :
    paced frame 0 n = schedule frame n := by
  have hrest : paced frame 0 (n % frame) = steps (n % frame) := by
    have hlt : 0 + n % frame < frame := by
      rw [Nat.zero_add]
      exact Nat.mod_lt n hframe
    simpa [paced] using paced_add_of_lt hlt 0
  rw [schedule, ← hrest, ← paced_frames_add hframe, Nat.mul_comm, Nat.div_add_mod]

/-- Once the loop has ended in an error, more instructions make no difference. -/
theorem paced_add_of_error {c c' : Computer} {e : Error} {m : Nat}
    (h : paced frame since m c = .error e c') (n : Nat) :
    paced frame since (m + n) c = .error e c' := by
  induction m generalizing since c with
  | zero => cases h
  | succ m ih =>
    rw [Nat.succ_add]
    rw [paced] at h ⊢
    rcases of_bind_error h with hstep | ⟨i, d, hstep, hrest⟩
    · exact bind_of_error hstep
    · rw [bind_of_ok hstep]
      by_cases hlast : frame ≤ since + 1
      · rw [if_pos hlast] at hrest ⊢
        rcases of_bind_error hrest with htick | ⟨u, d', htick, hrest⟩
        · exact bind_of_error htick
        · exact (bind_of_ok htick).trans (ih hrest)
      · rw [if_neg hlast] at hrest ⊢
        exact ih hrest

/-- A schedule of whole frames has nothing left over. -/
theorem schedule_mul (hframe : 0 < frame) (k : Nat) :
    schedule frame (k * frame) = frames frame k := by
  rw [schedule, Nat.mul_div_cancel k hframe, Nat.mul_mod_left, steps, bind_pure_unit]

/-! ## The configuration stays -/

variable {c c' : Computer}

theorem keeps_config_onBoard {α : Type} (act : Board.Action α) (config : Config) :
    Keeps (fun c => c.config = config) (onBoard act) :=
  keeps_beside_onBoard (fun _ _ h => h) act

theorem keeps_config_onMemory {α : Type} (wrap : Memory.Error → Error)
    (access : Memory.Access Wire Bus α) (config : Config) :
    Keeps (fun c => c.config = config) (onMemory wrap access) :=
  keeps_beside_onMemory (fun _ _ h => h) wrap access

theorem keeps_config_rewire (config : Config) : Keeps (fun c => c.config = config) rewire := by
  refine keeps_iff.mpr fun c h => ?_
  rw [rewire_eq]
  split
  · exact h
  · exact keeps_iff.mp (keeps_config_onMemory _ _ config) _ h

theorem keeps_config_step (config : Config) : Keeps (fun c => c.config = config) step :=
  (keeps_config_onBoard _ config).bind fun _ => (keeps_config_rewire config).bind fun _ => .pure _

theorem keeps_config_tickDevices (config : Config) :
    Keeps (fun c => c.config = config) tickDevices :=
  Keeps.get.bind fun _ => (keeps_config_onBoard _ config).bind fun _ => keeps_config_rewire config

theorem keeps_config_runFrame (config : Config) : Keeps (fun c => c.config = config) runFrame :=
  Keeps.get.bind fun _ => (keeps_config_onBoard _ config).bind fun _ =>
    keeps_config_tickDevices config

theorem keeps_config_loadImage (words : List Word) (config : Config) :
    Keeps (fun c => c.config = config) (loadImage words) :=
  (keeps_config_onMemory _ _ config).bind fun _ =>
    (Keeps.modify (f := reset) fun _ h => h).bind fun _ => keeps_config_rewire config

theorem config_of_ofConfig {config : Config} (h : ofConfig config = .ok c) : c.config = config := by
  obtain ⟨bus, -, -, rfl⟩ := of_ofConfig h
  rfl

/-! ## Whole frames -/

/-- **A tick ends well for both computers or for neither**, and leaves them equal. -/
theorem Trails.tickDevices_eq_ok_iff {c d e : Computer} (h : Trails c d) :
    tickDevices c = .ok () e ↔ tickDevices d = .ok () e := by
  refine ⟨h.tickDevices_eq, fun hd => ?_⟩
  change (onBoard (Bus.tick d.now) >>= fun _ => rewire) d = _ at hd
  change (onBoard (Bus.tick c.now) >>= fun _ => rewire) c = _
  obtain ⟨_, d', htick, hrewire⟩ := exists_of_bind_ok hd
  rw [← h.now] at htick
  obtain ⟨c', htick', htrails⟩ := (lockstep_onBoard (Bus.uniform_tick c.now)).exists_ok_left h htick
  obtain ⟨e', hrewire₁, hrewire₂⟩ := htrails.exists_rewire_eq
  rw [hrewire] at hrewire₂
  cases hrewire₂
  rw [bind_of_ok htick', hrewire₁]

/-- **A frame that ends well is that many steps and a tick.** -/
theorem runFrame_eq_ok_iff (hwired : c.Wired) (hsync : c.Synced)
    (hframe : c.config.cyclesPerFrame.toNat = frame) :
    runFrame c = .ok () c' ↔ (do steps frame; tickDevices) c = .ok () c' := by
  have htrails : Trails c c := .refl hwired hsync
  change (onBoard (Processor.exec c.config.cyclesPerFrame.toNat) >>= fun _ => tickDevices) c = _ ↔ _
  rw [hframe]
  constructor
  · intro h
    obtain ⟨_, c₁, hexec, htick⟩ := exists_of_bind_ok h
    obtain ⟨d₁, hsteps, htrails₁⟩ := (lockstep_steps frame).exists_ok htrails hexec
    exact (bind_of_ok hsteps).trans (htrails₁.tickDevices_eq_ok_iff.mp htick)
  · intro h
    obtain ⟨_, d₁, hsteps, htick⟩ := exists_of_bind_ok h
    obtain ⟨c₁, hexec, htrails₁⟩ := (lockstep_steps frame).exists_ok_left htrails hsteps
    exact (bind_of_ok hexec).trans (htrails₁.tickDevices_eq_ok_iff.mpr htick)

theorem keeps_runFrame : Keeps Furnished runFrame := Keeps.get.bind fun _ => keeps_run _

theorem tracks_runFrame : Tracks runFrame := .bind .get (fun _ => .get) fun _ => tracks_run _

/-- …and so for any number of frames. -/
theorem runFrames_eq_ok_iff (k : Nat) (h : c.Furnished) (hsync : c.Synced)
    (hframe : c.config.cyclesPerFrame.toNat = frame) :
    runFrames k c = .ok () c' ↔ frames frame k c = .ok () c' := by
  induction k generalizing c with
  | zero => exact Iff.rfl
  | succ k ih =>
    have hone : ∀ {d}, runFrame c = .ok () d ↔ (do steps frame; tickDevices) c = .ok () d :=
      runFrame_eq_ok_iff h.toWired hsync hframe
    have hnext : ∀ {d}, runFrame c = .ok () d → (runFrames k d = .ok () c' ↔
        frames frame k d = .ok () c') := by
      intro d hd
      have hconfig : d.config = c.config := (keeps_config_runFrame c.config).of_ok rfl hd
      exact ih (keeps_runFrame.of_ok h hd) (tracks_runFrame.ok h hd) (hconfig ▸ hframe)
    have hframes : frames frame (k + 1) =
        ((do steps frame; tickDevices : Action Unit) >>= fun _ => frames frame k) := by
      rw [frames, bind_assoc]
    rw [hframes, runFrames]
    constructor
    · intro hall
      obtain ⟨_, d, hd, hrest⟩ := exists_of_bind_ok hall
      exact (bind_of_ok (hone.mp hd)).trans ((hnext hd).mp hrest)
    · intro hall
      obtain ⟨_, d, hd, hrest⟩ := exists_of_bind_ok hall
      exact (bind_of_ok (hone.mpr hd)).trans ((hnext (hone.mpr hd)).mpr hrest)

end Computer

end WordMachine
