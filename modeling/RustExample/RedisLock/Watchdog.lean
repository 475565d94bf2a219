import Mathlib.Data.Int.Notation
import Mathlib.Data.List.Basic
import RustExample.Foundation.Run

/-!
# The watchdog of a lock

A watchdog loop refreshes the key of a lock until it is stopped or finds the key lost. Starts and
stops share a handle and a stop flag behind a mutex, and a stop waits for its loop outside of it.
The flag is one for all loops: a start that comes while a stop waits resets it, and the loop that
should stop goes on beside the new one. The handle of a loop that has ended by itself stays, and
refuses the next start.

Source: `distributed_lock_example/src/main.rs` (`start_watchdog`, `stop_watchdog`).

* A section that holds the mutex is one step, and so are a stop check, a refresh and the exit of a
  loop. What a refresh finds is an input.
* Loops are numbered in the order of their starts. A stop that waits is known by its loop.
-/

namespace RustExample.RedisLock

open List

/-! ### Loops, starts and stops -/

/-- Why a lock fails. -/
inductive LockError where
  | watchdogAlreadyRunning
  deriving DecidableEq

/-- What a loop does next, or that it has ended. -/
inductive LoopPhase where
  | checking | refreshing | exiting | ended
  deriving DecidableEq

/-- The watchdog state behind the mutex, the loops, and the loops that stops wait for. -/
structure Watchdog where
  handle : Option ℕ
  stop : Bool
  loops : List LoopPhase
  waiting : List ℕ

namespace Watchdog

def initial : Watchdog := ⟨none, false, [], []⟩

/-- Starts a loop, unless one runs. -/
def startWatchdog (w : Watchdog) : Except LockError Unit × Watchdog :=
  if w.handle.isSome then (.error .watchdogAlreadyRunning, w)
  else
    (.ok (), { w with
      stop := false
      loops := w.loops ++ [.checking]
      handle := some w.loops.length })

/-- The first section of a stop: the loop that it goes on to wait for. Without one it returns. -/
def stopWatchdog (w : Watchdog) : Option ℕ × Watchdog :=
  match w.handle with
  | some loop =>
    (some loop, { w with handle := none, stop := true, waiting := w.waiting ++ [loop] })
  | none => (none, w)

/-- The last section of a stop, which returns after it. -/
def stopReturn (w : Watchdog) (loop : ℕ) : Watchdog :=
  { w with stop := false, waiting := w.waiting.erase loop }

/-- A loop comes to a phase. -/
def setPhase (w : Watchdog) (loop : ℕ) (phase : LoopPhase) : Watchdog :=
  { w with loops := w.loops.set loop phase }

/-- `if stop_flag.lock().await.stop`. -/
def check (w : Watchdog) (loop : ℕ) : Watchdog :=
  w.setPhase loop (if w.stop then .exiting else .refreshing)

/-- A refresh that finds the key lost ends the loop; an error does not. -/
def refresh (w : Watchdog) (loop : ℕ) (result : Except String ℤ) : Watchdog :=
  w.setPhase loop <|
    match result with
    | .ok 0 => .exiting
    | .ok _ | .error _ => .checking

/-- The loop has not ended. -/
def Running (w : Watchdog) (loop : ℕ) : Prop :=
  ∃ phase, w.loops[loop]? = some phase ∧ phase ≠ .ended

end Watchdog

/-- What may happen. -/
inductive WatchdogEvent where
  | start (result : Except LockError Unit)
  | stop (taken : Option ℕ)
  | stopReturn (loop : ℕ)
  | check (loop : ℕ)
  | refresh (loop : ℕ) (result : Except String ℤ)
  | exit (loop : ℕ)

/-- One event. -/
def WatchdogStep (w : Watchdog) : WatchdogEvent → Watchdog → Prop
  | .start result, w' => w.startWatchdog = (result, w')
  | .stop taken, w' => w.stopWatchdog = (taken, w')
  | .stopReturn loop, w' =>
    loop ∈ w.waiting ∧ w.loops[loop]? = some .ended ∧ w' = w.stopReturn loop
  | .check loop, w' => w.loops[loop]? = some .checking ∧ w' = w.check loop
  | .refresh loop result, w' =>
    w.loops[loop]? = some .refreshing ∧ w' = w.refresh loop result
  | .exit loop, w' => w.loops[loop]? = some .exiting ∧ w' = w.setPhase loop .ended

/-! ### The promise -/

/-- The stop that begins at position `b` has returned by position `r`. -/
def StopReturned (es : List WatchdogEvent) (b r : ℕ) : Prop :=
  es[b]? = some (.stop none) ∧ r = b ∨
    ∃ loop, es[b]? = some (.stop (some loop)) ∧ b < r ∧ es[r]? = some (.stopReturn loop)

theorem StopReturned.take {es : List WatchdogEvent} {b r k : ℕ} (h : StopReturned es b r)
    (hk : r < k) : StopReturned (es.take k) b r := by
  rcases h with ⟨hb, rfl⟩ | ⟨loop, hb, hlt, hr⟩
  · exact .inl ⟨(getElem?_take_of_lt hk).trans hb, rfl⟩
  · exact .inr ⟨loop, (getElem?_take_of_lt (Nat.lt_trans hlt hk)).trans hb, hlt,
      (getElem?_take_of_lt hk).trans hr⟩

/-- At most one loop runs; after a stop no loop that was started before refreshes the key; a start
is refused only while a loop runs or is being stopped; and a loop that a stop waits for leaves at
its next check. -/
structure WatchdogProtocol (es : List WatchdogEvent) : Prop where
  single : Run.Always WatchdogStep .initial
    (fun w => ∀ loop loop', w.Running loop → w.Running loop' → loop = loop') es
  quiet : ∀ b r k w loop result, StopReturned es b r → r < k →
    Run WatchdogStep .initial (es.take b) w → loop < w.loops.length →
      es[k]? ≠ some (.refresh loop result)
  refused : Run.AtEvents WatchdogStep .initial
    (fun w e => ∀ err, e = .start (.error err) → ∃ loop, w.Running loop ∨ loop ∈ w.waiting) es
  leaves : Run.AtEvents WatchdogStep .initial
    (fun w e => ∀ loop w', e = .check loop → loop ∈ w.waiting → WatchdogStep w e w' →
      w'.loops[loop]? = some .exiting) es

/-- A start comes neither while a stop waits, nor while the handle is that of a loop that has ended;
a stop does not come when there is no handle and a loop is past its check; and it does not return
while another waits for a loop that has yet to check. -/
def Undisturbed (w : Watchdog) : WatchdogEvent → Prop
  | .start _ => (∀ loop ∈ w.waiting, ¬w.Running loop) ∧
      ∀ loop, w.handle = some loop → w.Running loop
  | .stop _ => w.handle = none → ∀ loop : ℕ, w.loops[loop]? ≠ some .refreshing
  | .stopReturn loop => ∀ loop' ∈ w.waiting, loop' ≠ loop →
      w.loops[loop']? ≠ some .checking ∧ w.loops[loop']? ≠ some .refreshing
  | .check _ | .refresh .. | .exit _ => True

namespace Watchdog

variable {w w' : Watchdog} {e : WatchdogEvent} {loop loop' : ℕ} {phase phase' : LoopPhase}

theorem getElem?_setPhase (h : w.loops[loop]? = some phase) :
    (w.setPhase loop phase').loops[loop']? =
      if loop = loop' then some phase' else w.loops[loop']? := by
  have hlt := (List.getElem?_eq_some_iff.mp h).1
  rw [setPhase, getElem?_set, if_pos hlt]

theorem Running.of_setPhase (h : w.loops[loop]? = some phase) (hphase : phase ≠ .ended)
    (hrunning : (w.setPhase loop phase').Running loop') : w.Running loop' := by
  obtain ⟨p, hp, hne⟩ := hrunning
  rw [getElem?_setPhase h] at hp
  split_ifs at hp with heq
  · subst heq
    exact ⟨phase, h, hphase⟩
  · exact ⟨p, hp, hne⟩

/-! ### What undisturbed steps keep -/

/-- At most one loop runs; it has the handle, or a stop waits for it without one; and the stop flag
is set until that loop checks it. -/
structure Inv (w : Watchdog) : Prop where
  handle_lt : ∀ loop, w.handle = some loop → loop < w.loops.length
  lt_length : ∀ loop ∈ w.waiting, loop < w.loops.length
  single : ∀ loop loop', w.Running loop → w.Running loop' → loop = loop'
  owned : ∀ loop, w.Running loop → w.handle = some loop ∨ w.handle = none ∧ loop ∈ w.waiting
  stopping : ∀ loop ∈ w.waiting,
    w.loops[loop]? = some .checking ∨ w.loops[loop]? = some .refreshing → w.stop = true

theorem inv_initial : initial.Inv where
  handle_lt _ h := absurd h nofun
  lt_length _ h := absurd h not_mem_nil
  single _ _ := fun ⟨_, h, _⟩ => absurd h nofun
  owned _ := fun ⟨_, h, _⟩ => absurd h nofun
  stopping _ h := absurd h not_mem_nil

/-- A loop that moves on, and sees the stop flag if a stop waits for it. -/
theorem Inv.setPhase (h : w.Inv) (hphase : w.loops[loop]? = some phase) (hne : phase ≠ .ended)
    (hstop : loop ∈ w.waiting → phase' = .checking ∨ phase' = .refreshing → w.stop = true) :
    (w.setPhase loop phase').Inv where
  handle_lt loop' hhandle := by
    rw [Watchdog.setPhase, List.length_set]
    exact h.handle_lt loop' hhandle
  lt_length loop' hmem := by
    rw [Watchdog.setPhase, List.length_set]
    exact h.lt_length loop' hmem
  single loop₁ loop₂ h₁ h₂ := h.single _ _ (h₁.of_setPhase hphase hne) (h₂.of_setPhase hphase hne)
  owned loop' hrunning := h.owned loop' (hrunning.of_setPhase hphase hne)
  stopping loop' hmem hmoving := by
    rw [getElem?_setPhase hphase] at hmoving
    split_ifs at hmoving with heq
    · subst heq
      exact hstop hmem (hmoving.imp Option.some.inj Option.some.inj)
    · exact h.stopping loop' hmem hmoving

/-- A start that comes while no stop waits for a running loop. -/
theorem Inv.start (h : w.Inv) (hfree : ∀ loop ∈ w.waiting, ¬w.Running loop) :
    w.startWatchdog.2.Inv := by
  rw [startWatchdog]
  split_ifs with hhandle
  · exact h
  have hnone : w.handle = none := by simpa using hhandle
  have hidle (loop : ℕ) : ¬w.Running loop := fun hrunning => by
    rcases h.owned loop hrunning with hsome | ⟨-, hmem⟩
    · rw [hnone] at hsome
      exact absurd hsome nofun
    · exact hfree loop hmem hrunning
  have hnew {loop : ℕ} {phase : LoopPhase} (hphase : (w.loops ++ [.checking])[loop]? = some phase)
      (hne : phase ≠ .ended) : loop = w.loops.length := by
    rcases getElem?_snoc.mp hphase with hold | ⟨heq, -⟩
    · exact absurd ⟨phase, hold, hne⟩ (hidle loop)
    · exact heq
  refine ⟨fun loop hloop => ?_, fun loop hmem => ?_, fun loop loop' h₁ h₂ => ?_,
    fun loop hrunning => ?_, fun loop hmem hmoving => ?_⟩
  · obtain ⟨⟩ := hloop
    rw [length_append, length_singleton]
    exact Nat.lt_succ_self _
  · rw [length_append]
    exact Nat.lt_add_right _ (h.lt_length loop hmem)
  · obtain ⟨p, hp, hne⟩ := h₁
    obtain ⟨p', hp', hne'⟩ := h₂
    exact (hnew hp hne).trans (hnew hp' hne').symm
  · obtain ⟨p, hp, hne⟩ := hrunning
    exact .inl (congrArg some (hnew hp hne).symm)
  · have hlt := h.lt_length loop hmem
    have hlast : loop = w.loops.length := by
      rcases hmoving with hp | hp
      · exact hnew hp nofun
      · exact hnew hp nofun
    omega

theorem Inv.stop (h : w.Inv) : w.stopWatchdog.2.Inv := by
  rw [stopWatchdog]
  split
  · rename_i loop₀ hhandle
    have hmine (loop : ℕ) (hrunning : w.Running loop) : loop = loop₀ := by
      rcases h.owned loop hrunning with hsome | ⟨hnone, -⟩
      · exact Option.some.inj (hsome.symm.trans hhandle)
      · rw [hhandle] at hnone
        exact absurd hnone nofun
    refine ⟨nofun, fun loop hmem => ?_, h.single, fun loop hrunning => .inr ⟨rfl, ?_⟩,
      fun _ _ _ => rfl⟩
    · rcases List.mem_append.mp hmem with hold | hnew
      · exact h.lt_length loop hold
      · exact List.mem_singleton.mp hnew ▸ h.handle_lt loop₀ hhandle
    · rw [hmine loop hrunning]
      exact mem_append_right _ (List.mem_singleton.mpr rfl)
  · exact h

/-- A stop that returns while no other waits for a loop that has yet to check the flag. -/
theorem Inv.stopReturn (h : w.Inv) (hended : w.loops[loop]? = some .ended)
    (hothers : ∀ loop' ∈ w.waiting, loop' ≠ loop →
      w.loops[loop']? ≠ some .checking ∧ w.loops[loop']? ≠ some .refreshing) :
    (w.stopReturn loop).Inv where
  handle_lt := h.handle_lt
  lt_length loop' hmem := h.lt_length loop' (mem_of_mem_erase hmem)
  single := h.single
  owned loop' hrunning := by
    refine (h.owned loop' hrunning).imp_right fun ⟨hnone, hmem⟩ => ⟨hnone, ?_⟩
    refine (mem_erase_of_ne ?_).mpr hmem
    rintro rfl
    obtain ⟨phase, hphase, hne⟩ := hrunning
    exact hne (Option.some.inj (hphase.symm.trans hended))
  stopping loop' hmem hmoving := by
    by_cases heq : loop' = loop
    · subst heq
      rcases hmoving with hphase | hphase <;> exact absurd (hphase.symm.trans hended) nofun
    · obtain ⟨hchecking, hrefreshing⟩ := hothers loop' (mem_of_mem_erase hmem) heq
      exact absurd hmoving (not_or.mpr ⟨hchecking, hrefreshing⟩)

/-- **One undisturbed step** keeps the invariant. -/
theorem Inv.step (h : w.Inv) (hstep : WatchdogStep w e w') (hcalm : Undisturbed w e) : w'.Inv := by
  cases e with
  | start result =>
    have hnext : w.startWatchdog.2 = w' := congrArg Prod.snd hstep
    exact hnext ▸ h.start hcalm.1
  | stop taken =>
    have hnext : w.stopWatchdog.2 = w' := congrArg Prod.snd hstep
    exact hnext ▸ h.stop
  | stopReturn loop =>
    obtain ⟨-, hended, rfl⟩ := hstep
    exact h.stopReturn hended hcalm
  | check loop =>
    obtain ⟨hphase, rfl⟩ := hstep
    refine h.setPhase hphase nofun fun hmem _ => h.stopping loop hmem (.inl hphase)
  | refresh loop result =>
    obtain ⟨hphase, rfl⟩ := hstep
    refine h.setPhase hphase nofun fun hmem _ => h.stopping loop hmem (.inr hphase)
  | exit loop =>
    obtain ⟨hphase, rfl⟩ := hstep
    refine h.setPhase hphase nofun fun _ hmoving => ?_
    rcases hmoving with heq | heq <;> exact absurd heq nofun

/-! ### Loops that refresh no more -/

/-- The loop has ended, is on its way out, or will see the stop flag at its check. -/
def Quiet (w : Watchdog) (loop : ℕ) : Prop :=
  w.loops[loop]? = some .ended ∨ w.loops[loop]? = some .exiting ∨
    w.loops[loop]? = some .checking ∧ loop ∈ w.waiting

theorem Quiet.ne_refreshing (h : w.Quiet loop) : w.loops[loop]? ≠ some .refreshing := by
  rintro hphase
  rcases h with hended | hexiting | ⟨hchecking, -⟩
  · exact absurd (hphase.symm.trans hended) nofun
  · exact absurd (hphase.symm.trans hexiting) nofun
  · exact absurd (hphase.symm.trans hchecking) nofun

theorem Quiet.getElem?_isSome (h : w.Quiet loop) : loop < w.loops.length := by
  rcases h with hp | hp | ⟨hp, -⟩
  all_goals exact (List.getElem?_eq_some_iff.mp hp).1

/-- A quiet loop stays so while its phase does, and the stop that waits for it does. -/
theorem Quiet.congr (h : w.Quiet loop) (hphase : w'.loops[loop]? = w.loops[loop]?)
    (hwaiting : w.loops[loop]? = some .checking → loop ∈ w.waiting → loop ∈ w'.waiting) :
    w'.Quiet loop := by
  rw [Quiet, hphase]
  exact h.imp_right (Or.imp_right fun ⟨hchecking, hmem⟩ => ⟨hchecking, hwaiting hchecking hmem⟩)

theorem Quiet.setPhase (h : w.Quiet loop) (hphase : w.loops[loop']? = some phase)
    (hself : loop' = loop → (w.setPhase loop' phase').Quiet loop) :
    (w.setPhase loop' phase').Quiet loop := by
  by_cases heq : loop' = loop
  · exact hself heq
  · exact h.congr ((getElem?_setPhase hphase).trans (if_neg heq)) fun _ hmem => hmem

/-- **A quiet loop stays quiet.** -/
theorem Quiet.step (h : w.Quiet loop) (hinv : w.Inv) (hstep : WatchdogStep w e w') :
    w'.Quiet loop := by
  cases e with
  | start result =>
    have hnext : w.startWatchdog.2 = w' := congrArg Prod.snd hstep
    subst hnext
    rw [startWatchdog]
    split_ifs
    · exact h
    · exact h.congr (getElem?_append_left h.getElem?_isSome) fun _ hmem => hmem
  | stop taken =>
    have hnext : w.stopWatchdog.2 = w' := congrArg Prod.snd hstep
    subst hnext
    rw [stopWatchdog]
    split
    · exact h.congr rfl fun _ hmem => mem_append_left _ hmem
    · exact h
  | stopReturn loop' =>
    obtain ⟨-, hended, rfl⟩ := hstep
    refine h.congr rfl fun hchecking hmem => (mem_erase_of_ne ?_).mpr hmem
    rintro rfl
    exact absurd (hchecking.symm.trans hended) nofun
  | check loop' =>
    obtain ⟨hphase, rfl⟩ := hstep
    refine h.setPhase hphase ?_
    rintro rfl
    have hmem : loop' ∈ w.waiting := by
      rcases h with hp | hp | ⟨-, hmem⟩
      · exact absurd (hp.symm.trans hphase) nofun
      · exact absurd (hp.symm.trans hphase) nofun
      · exact hmem
    refine .inr (.inl ?_)
    rw [getElem?_setPhase hphase, if_pos rfl, hinv.stopping loop' hmem (.inl hphase), if_pos rfl]
  | refresh loop' result =>
    obtain ⟨hphase, rfl⟩ := hstep
    refine h.setPhase hphase ?_
    rintro rfl
    exact absurd hphase h.ne_refreshing
  | exit loop' =>
    obtain ⟨hphase, rfl⟩ := hstep
    refine h.setPhase hphase ?_
    rintro rfl
    exact .inl ((getElem?_setPhase hphase).trans (if_pos rfl))

/-- The loops that a stop finds are quiet after it, apart from the one it goes on to wait for. -/
theorem Inv.quiet_of_stop (h : w.Inv) {taken : Option ℕ}
    (hstep : WatchdogStep w (.stop taken) w') (hcalm : Undisturbed w (.stop taken))
    (hlt : loop < w.loops.length) (hloop : taken ≠ some loop) : w'.Quiet loop := by
  have hphase : w.loops[loop]? = some w.loops[loop] := getElem?_eq_getElem hlt
  rw [WatchdogStep, stopWatchdog] at hstep
  by_cases hended : w.loops[loop] = .ended
  · rw [hended] at hphase
    split at hstep <;> obtain ⟨-, rfl⟩ := Prod.mk.inj hstep
    · exact .inl hphase
    · exact .inl hphase
  · rcases h.owned loop ⟨_, hphase, hended⟩ with hsome | ⟨hnone, hmem⟩
    · rw [hsome] at hstep
      exact absurd (Prod.mk.inj hstep).1.symm hloop
    · rw [hnone] at hstep
      obtain ⟨-, rfl⟩ := Prod.mk.inj hstep
      have hcalm := hcalm hnone loop
      cases hp : w.loops[loop] with
      | checking => exact .inr (.inr ⟨hp ▸ hphase, hmem⟩)
      | refreshing => exact absurd (hp ▸ hphase) hcalm
      | exiting => exact .inr (.inl (hp ▸ hphase))
      | ended => exact absurd hp hended

/-! ### Histories -/

/-- One event that keeps to the order. -/
def CalmStep (w : Watchdog) (e : WatchdogEvent) (w' : Watchdog) : Prop :=
  WatchdogStep w e w' ∧ Undisturbed w e

variable {es : List WatchdogEvent}

theorem Inv.run (h : w.Inv) (run : Run CalmStep w es w') : w'.Inv :=
  run.invariant h fun _ _ _ hinv hstep => hinv.step hstep.1 hstep.2

theorem Quiet.run (h : w.Quiet loop) (hinv : w.Inv) (run : Run CalmStep w es w') :
    w'.Quiet loop := by
  have hboth : w'.Inv ∧ w'.Quiet loop :=
    run.invariant (P := fun w => w.Inv ∧ w.Quiet loop) ⟨hinv, h⟩
      fun _ _ _ hP hstep => ⟨hP.1.step hstep.1 hstep.2, hP.2.step hP.1 hstep.1⟩
  exact hboth.2

theorem watchdogStep_unique : ∀ (w : Watchdog) (e : WatchdogEvent) (w₁ w₂ : Watchdog),
    WatchdogStep w e w₁ → WatchdogStep w e w₂ → w₁ = w₂ := by
  intro w e w₁ w₂ h₁ h₂
  cases e with
  | start result => exact (Prod.mk.inj (h₁.symm.trans h₂)).2
  | stop taken => exact (Prod.mk.inj (h₁.symm.trans h₂)).2
  | stopReturn loop => exact h₁.2.2.trans h₂.2.2.symm
  | check loop => exact h₁.2.trans h₂.2.symm
  | refresh loop result => exact h₁.2.trans h₂.2.symm
  | exit loop => exact h₁.2.trans h₂.2.symm

/-- The loops that a stop found are quiet in every state after its return. -/
theorem quiet_after_return (run : Run CalmStep .initial es w) {b r : ℕ}
    (hreturned : StopReturned es b r) {w₀ : Watchdog}
    (hw₀ : Run WatchdogStep .initial (es.take b) w₀) (hlt : loop < w₀.loops.length) :
    w.Quiet loop := by
  have hcalm : ∀ {es w}, Run CalmStep .initial es w → Run WatchdogStep .initial es w :=
    fun run => run.imp fun _ _ _ h => h.1
  have hstop {taken : Option ℕ} (hb : es[b]? = some (.stop taken)) (hne : taken ≠ some loop) :
      w.Quiet loop := by
    obtain ⟨w₁, w₂, hw₁, hstep, hrest⟩ := run.at_event hb
    obtain rfl := Run.state_unique watchdogStep_unique hw₀ (hcalm hw₁)
    have hinv := inv_initial.run hw₁
    exact (hinv.quiet_of_stop hstep.1 hstep.2 hlt hne).run (hinv.step hstep.1 hstep.2) hrest
  rcases hreturned with ⟨hb, -⟩ | ⟨loop₀, hb, -, hreturn⟩
  · exact hstop hb nofun
  · by_cases heq : loop₀ = loop
    · subst heq
      obtain ⟨w₁, w₂, hw₁, hstep, hrest⟩ := run.at_event hreturn
      have hinv := inv_initial.run hw₁
      have hquiet : w₁.Quiet loop₀ := .inl hstep.1.2.1
      exact (hquiet.step hinv hstep.1).run (hinv.step hstep.1 hstep.2) hrest
    · exact hstop hb fun hsome => heq (Option.some.inj hsome)

end Watchdog

open Watchdog in
/-- **The watchdog protocol** is kept if starts and stops do not disturb each other: one loop at a
time, no refresh after a stop, no start refused without cause, and every loop leaves at its next
check. -/
theorem watchdog_protocol_of_undisturbed {es : List WatchdogEvent} {w : Watchdog}
    (run : Run WatchdogStep .initial es w)
    (hcalm : Run.AtEvents WatchdogStep .initial Undisturbed es) : WatchdogProtocol es := by
  have hinv {n : ℕ} {w : Watchdog} (hw : Run WatchdogStep .initial (es.take n) w) : w.Inv :=
    inv_initial.run (hw.of_atEvents (hcalm.take n))
  constructor
  · exact fun n w hw => (hinv hw).single
  · intro b r k w₀ loop result hreturned hrk hw₀ hlt hk
    have hklt := (List.getElem?_eq_some_iff.mp hk).1
    obtain ⟨w₁, w₂, hw₁, hstep, -⟩ := run.at_event hk
    have hquiet : w₁.Quiet loop := by
      have hb : b ≤ r := by
        rcases hreturned with ⟨-, rfl⟩ | ⟨-, -, hlt, -⟩ <;> omega
      rw [← Nat.min_eq_left (Nat.le_of_lt (Nat.lt_of_le_of_lt hb hrk)), ← take_take] at hw₀
      exact quiet_after_return (hw₁.of_atEvents (hcalm.take k)) (hreturned.take hrk) hw₀ hlt
    exact hquiet.ne_refreshing hstep.1
  · rintro n w e hw he err rfl
    obtain ⟨w₁, w₂, hw₁, hstep, -⟩ := run.at_event he
    obtain rfl := Run.state_unique watchdogStep_unique hw hw₁
    rw [WatchdogStep, startWatchdog] at hstep
    split_ifs at hstep with hhandle
    · obtain ⟨loop, hloop⟩ := Option.isSome_iff_exists.mp hhandle
      exact ⟨loop, .inl ((hcalm n w _ hw he).2 loop hloop)⟩
    · exact absurd (Prod.mk.inj hstep).1 nofun
  · rintro n w e hw he loop w' rfl hmem hstep
    obtain ⟨hphase, rfl⟩ := hstep
    rw [check, (hinv hw).stopping loop hmem (.inl hphase), if_pos rfl,
      getElem?_setPhase hphase, if_pos rfl]

/-! ### Histories with and without disturbance -/

/-- A loop that refreshes the key once and is stopped, and a second loop. -/
def twoLoops : List WatchdogEvent :=
  [.start (.ok ()), .check 0, .refresh 0 (.ok 1), .stop (some 0), .check 0, .exit 0, .stopReturn 0,
    .start (.ok ())]

theorem watchdog_protocol_of_two_loops :
    ∃ w, Run WatchdogStep .initial twoLoops w ∧ WatchdogProtocol twoLoops := by
  obtain ⟨w, run⟩ : ∃ w, Run Watchdog.CalmStep .initial twoLoops w :=
    ⟨_, .cons ⟨rfl, nofun, nofun⟩ <| .cons ⟨⟨rfl, rfl⟩, trivial⟩ <|
      .cons ⟨⟨rfl, rfl⟩, trivial⟩ <| .cons ⟨rfl, nofun⟩ <| .cons ⟨⟨rfl, rfl⟩, trivial⟩ <|
      .cons ⟨⟨rfl, rfl⟩, trivial⟩ <|
      .cons ⟨⟨by decide, rfl, rfl⟩,
        fun _ hmem hne => absurd (List.mem_singleton.mp hmem) hne⟩ <|
      .cons ⟨rfl, nofun, nofun⟩ .nil⟩
  have hrun : Run WatchdogStep .initial twoLoops w := run.imp fun _ _ _ h => h.1
  exact ⟨w, hrun, watchdog_protocol_of_undisturbed hrun
    (Run.atEvents_of_run Watchdog.watchdogStep_unique run)⟩

/-- **The protocol is broken** in each part: a start while a stop waits leaves two loops, of which
the first passes its check; a second stop returns before the refresh of the loop that the first
waits for; and the handle of a loop that has lost the key refuses a start. -/
theorem watchdog_protocol_broken :
    ¬Run.Always WatchdogStep .initial
      (fun w => ∀ loop loop', w.Running loop → w.Running loop' → loop = loop')
      [.start (.ok ()), .stop (some 0), .start (.ok ())] ∧
    ¬Run.AtEvents WatchdogStep .initial
      (fun w e => ∀ loop w', e = .check loop → loop ∈ w.waiting → WatchdogStep w e w' →
        w'.loops[loop]? = some .exiting)
      [.start (.ok ()), .stop (some 0), .start (.ok ()), .check 0] ∧
    ¬WatchdogProtocol [.start (.ok ()), .check 0, .stop (some 0), .stop none, .refresh 0 (.ok 1)] ∧
    ¬Run.AtEvents WatchdogStep .initial
      (fun w e => ∀ err, e = .start (.error err) → ∃ loop, w.Running loop ∨ loop ∈ w.waiting)
      [.start (.ok ()), .check 0, .refresh 0 (.ok 0), .exit 0,
        .start (.error .watchdogAlreadyRunning)] := by
  refine ⟨fun h => ?_, fun h => ?_, fun h => ?_, fun h => ?_⟩
  · have hsame := h 3 _ (.cons rfl <| .cons rfl <| .cons rfl .nil) 0 1 ⟨.checking, rfl, nofun⟩
      ⟨.checking, rfl, nofun⟩
    exact absurd hsame (by decide)
  · have hexit := h 3 _ _ (.cons rfl <| .cons rfl <| .cons rfl .nil) rfl 0 _ rfl (by decide)
      ⟨rfl, rfl⟩
    exact absurd hexit (by decide)
  · exact h.quiet 3 3 4 _ 0 (.ok 1) (.inl ⟨rfl, rfl⟩) (by decide)
      (.cons rfl <| .cons ⟨rfl, rfl⟩ <| .cons rfl .nil) (by decide) rfl
  · obtain ⟨loop, ⟨phase, hphase, hne⟩ | hmem⟩ := h 4 _ _
      (.cons rfl <| .cons ⟨rfl, rfl⟩ <| .cons ⟨rfl, rfl⟩ <| .cons ⟨rfl, rfl⟩ .nil) rfl _ rfl
    · match loop with
      | 0 => exact hne (Option.some.inj hphase).symm
      | _ + 1 => exact absurd hphase nofun
    · exact absurd hmem not_mem_nil

end RustExample.RedisLock
