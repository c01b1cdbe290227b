import Mathlib.Tactic.Ring
import WebTransport.Interval.Current

/-! How far apart the callbacks are. A deadline is computed with 64-bit signed arithmetic
from an unsigned number of milliseconds. Where the sum fits it is the time that was asked
for; where it does not, it wraps into the past and the alarm fires at once. -/
namespace WebTransport.Interval

variable {App : Type}

theorem toInt_toInt64 (ms : UInt64) : ms.toInt64.toInt = (ms.toNat : Int).bmod (2 ^ 64) := by
  have bits : ms.toInt64.toInt = ms.toBitVec.toInt := rfl
  rw [bits, BitVec.toInt_eq_toNat_bmod]
  rfl

/-- The conversion, the product and the sum wrap as one. -/
theorem toInt_deadline (now : QuicTime) (intervalMs : UInt64) :
    (deadline now intervalMs).toInt = (now.toInt + 1000 * intervalMs.toNat).bmod (2 ^ 64) := by
  have thousand : Int64.toInt 1000 = 1000 := rfl
  rw [deadline, fromMilliseconds, Int64.toInt_add, Int64.toInt_mul, toInt_toInt64, thousand, Int.bmod_mul_bmod,
    Int.add_bmod_bmod, Int.mul_comm]

theorem le_deadline_iff (now : QuicTime) (intervalMs : UInt64) :
    now.toInt + 1000 * intervalMs.toNat ≤ (deadline now intervalMs).toInt ↔
      now.toInt + 1000 * intervalMs.toNat < 2 ^ 63 := by
  have low := now.le_toInt
  have high := (deadline now intervalMs).toInt_lt
  constructor
  · intro later
    omega
  · intro fits
    have bound : ((2 ^ 64 : Nat) + 1 : Int) / 2 = 2 ^ 63 := by decide
    have unwrapped : (now.toInt + 1000 * intervalMs.toNat).bmod (2 ^ 64) = now.toInt + 1000 * intervalMs.toNat :=
      Int.bmod_eq_of_le (by omega) (by rwa [bound])
    exact Int.le_of_eq ((toInt_deadline now intervalMs).trans unwrapped).symm

def Effect.Later : Effect App → Prop
  | .set _ now intervalMs time => now.toInt + 1000 * intervalMs.toNat ≤ time.toInt
  | _ => True

def Effect.calledAt : Effect App → Option QuicTime
  | .called now _ _ => some now
  | _ => none

def calls (trace : List (Effect App)) : List QuicTime := trace.filterMap Effect.calledAt

@[simp] theorem calls_append (first second : List (Effect App)) : calls (first ++ second) = calls first ++ calls second :=
  List.filterMap_append

def Effect.Apart (before : List (Effect App)) : Effect App → Prop
  | .called now intervalMs _ => ∀ time ∈ calls before, time.toInt + 1000 * intervalMs.toNat ≤ now.toInt
  | _ => True

structure Spaced (k : Kind) (events : List (Event App)) : Prop where
  later : ∀ e ∈ (Machine.run (step k) ({} : Owner App) events).2, e.Later
  apart : Machine.Licensed Effect.Apart (Machine.run (step k) ({} : Owner App) events).2

/-- The time asked for, in microseconds, is below the limit of the signed numbers. -/
def Registration.Fits (r : Registration App) : Prop := r.now.toInt + 1000 * r.intervalMs.toNat < 2 ^ 63

def Fits (o : Owner App) : Event App → Prop
  | .setInterval r => r.Fits
  | .fire id now script after => ∀ alarm, o.due id now = some alarm →
      (alarm.delegate.cb.isSome → ∀ r ∈ script, r.Fits) ∧
        after.toInt + 1000 * alarm.delegate.intervalMs.toNat < 2 ^ 63

variable {o : Owner App} {k : Kind}

theorem set_later_iff (pointer : Option Nat) (now : QuicTime) (intervalMs : UInt64) :
    (∀ e ∈ (o.set pointer now intervalMs).2, e.Later) ↔ now.toInt + 1000 * intervalMs.toNat < 2 ^ 63 := by
  cases pointer <;> simp [Owner.set, Effect.Later, le_deadline_iff]

theorem setInterval_later_iff (r : Registration App) : (∀ e ∈ (o.setInterval r).2, e.Later) ↔ r.Fits := by
  rw [Owner.setInterval_renewed]
  simp [Effect.Later, le_deadline_iff, Registration.Fits]

theorem script_later_iff (script : List (Registration App)) :
    (∀ e ∈ (Machine.run Owner.setInterval o script).2, e.Later) ↔ ∀ r ∈ script, r.Fits :=
  Machine.run_forall_iff (fun _ => True) (fun _ _ _ => trivial) (fun _ r _ => setInterval_later_iff r) trivial script

theorem step_later_iff (event : Event App) : (∀ e ∈ (step k o event).2, e.Later) ↔ Fits o event := by
  cases event with
  | setInterval r =>
    simp only [step, k.setInterval_eq]
    exact setInterval_later_iff r
  | fire id now script after =>
    cases due : o.due id now with
    | none => simp [step_idle due, Fits, due]
    | some alarm =>
      rw [step_due due]
      cases cb : alarm.delegate.cb with
      | none => simp only [Owner.onAlarm, cb, set_later_iff, Fits, due]; simp [cb]
      | some app =>
        simp only [Owner.onAlarm, cb, List.cons_append, List.forall_mem_cons, List.forall_mem_append, set_later_iff,
          script_later_iff, Fits, due]
        simp [cb, Effect.Later]

structure Waits (trace : List (Effect App)) (o : Owner App) : Prop where
  sound : o.Sound
  armed : ∀ id alarm time, o.alarm? id = some alarm → alarm.deadline = some time →
    ∀ earlier ∈ calls trace, earlier.toInt + 1000 * alarm.delegate.intervalMs.toNat ≤ time.toInt
  apart : Machine.Licensed Effect.Apart trace

namespace Waits

variable {trace : List (Effect App)} {id : Nat} {now : QuicTime}

theorem initial : Waits [] ({} : Owner App) := ⟨.initial, nofun, .nil⟩

/-- A deadline that is computed behind all the invocations. -/
theorem deadline_later (past : ∀ earlier ∈ calls trace, earlier ≤ now) {intervalMs : UInt64}
    (fits : now.toInt + 1000 * intervalMs.toNat < 2 ^ 63) :
    ∀ earlier ∈ calls trace, earlier.toInt + 1000 * intervalMs.toNat ≤ (deadline now intervalMs).toInt := by
  intro earlier member
  have before := Int64.le_iff_toInt_le.mp (past earlier member)
  have later := (le_deadline_iff now intervalMs).mpr fits
  omega

theorem setInterval (waits : Waits trace o) (r : Registration App) (past : ∀ earlier ∈ calls trace, earlier ≤ r.now)
    (fits : r.Fits) : Waits (trace ++ (o.setInterval r).2) (o.setInterval r).1 := by
  rw [Owner.setInterval_effects r waits.sound]
  refine ⟨waits.sound.setInterval r, ?_, ?_⟩
  · intro id alarm time found set earlier member
    have same : calls (trace ++ [.registered r.cb, .set true r.now r.intervalMs (deadline r.now r.intervalMs)]) =
        calls trace := by simp [calls, Effect.calledAt]
    rw [same] at member
    rw [Owner.setInterval_alarm? r waits.sound] at found
    split at found
    · obtain rfl := Option.some.inj found
      obtain rfl := Option.some.inj set
      exact deadline_later past fits earlier member
    · cases found
  · exact Machine.licensed_append.mpr ⟨waits.apart, Machine.Licensed.of_forall (by simp [Effect.Apart])⟩

theorem script (waits : Waits trace o) (script : List (Registration App))
    (past : ∀ r ∈ script, ∀ earlier ∈ calls trace, earlier ≤ r.now) (fits : ∀ r ∈ script, r.Fits) :
    Waits (trace ++ (Machine.run Owner.setInterval o script).2) (Machine.run Owner.setInterval o script).1 := by
  induction script generalizing trace o with
  | nil => simpa using waits
  | cons r rest ih =>
    obtain ⟨pastFirst, pastRest⟩ := List.forall_mem_cons.mp past
    obtain ⟨fitsFirst, fitsRest⟩ := List.forall_mem_cons.mp fits
    have same : calls (trace ++ (o.setInterval r).2) = calls trace := by
      rw [Owner.setInterval_effects r waits.sound]
      simp [calls, Effect.calledAt]
    rw [Machine.run_cons, ← List.append_assoc]
    exact ih (waits.setInterval r pastFirst fitsFirst) (by rwa [same]) fitsRest

theorem set (waits : Waits trace o) (id : Nat) (now : QuicTime) {intervalMs : UInt64}
    (past : ∀ earlier ∈ calls trace, earlier ≤ now) (fits : now.toInt + 1000 * intervalMs.toNat < 2 ^ 63)
    (own : ∀ alarm, o.alarm? id = some alarm → alarm.delegate.intervalMs = intervalMs) :
    Waits (trace ++ (o.set (some id) now intervalMs).2) (o.set (some id) now intervalMs).1 := by
  refine ⟨waits.sound.set _ _ _, ?_, Machine.licensed_concat.mpr ⟨waits.apart, trivial⟩⟩
  intro i alarm time found set earlier member
  have same : calls (trace ++ (o.set (some id) now intervalMs).2) = calls trace := by
    simp [calls, Owner.set_effects, Effect.calledAt]
  rw [same] at member
  rw [Owner.set, Owner.alarm?_update] at found
  split at found
  · rename_i target
    subst target
    obtain ⟨before, there, rfl⟩ := Option.map_eq_some_iff.mp found
    obtain rfl := Option.some.inj set
    rw [own before there]
    exact deadline_later past fits earlier member
  · exact waits.armed i alarm time found set earlier member

theorem fired (waits : Waits trace o) {alarm : Alarm App} (due : o.due id now = some alarm) :
    (∀ earlier ∈ calls trace, earlier.toInt + 1000 * alarm.delegate.intervalMs.toNat ≤ now.toInt) ∧
      ∀ more, Machine.Licensed Effect.Apart (trace ++ more) → Waits (trace ++ more) (o.disarm id) := by
  obtain ⟨found, time, armed, passed⟩ := Owner.due_eq_some.mp due
  constructor
  · intro earlier member
    have waited := waits.armed id alarm time found armed earlier member
    have late := Int64.le_iff_toInt_le.mp passed
    omega
  · intro more apart
    refine ⟨waits.sound.disarm id, ?_, apart⟩
    intro i other time there set
    rw [Owner.disarm, Owner.alarm?_update] at there
    split at there
    · obtain ⟨before, -, rfl⟩ := Option.map_eq_some_iff.mp there
      cases set
    · rename_i apart
      exact absurd (Option.some.inj ((waits.sound.current id alarm found).symm.trans
        (waits.sound.current i other there))) apart

end Waits

def Event.readings : Event App → List QuicTime
  | .setInterval r => [r.now]
  | .fire _ now script after => now :: (script.map Registration.now ++ [after])

theorem calls_setInterval (r : Registration App) : calls (o.setInterval r).2 = [] := by
  rw [Owner.setInterval_renewed]
  simp [calls, Effect.calledAt]

theorem calls_script (script : List (Registration App)) : calls (Machine.run Owner.setInterval o script).2 = [] := by
  have one (o : Owner App) (r : Registration App) : ∀ e ∈ (o.setInterval r).2, e.calledAt = none :=
    List.filterMap_eq_nil_iff.mp (calls_setInterval r)
  exact List.filterMap_eq_nil_iff.mpr (Machine.run_outputs (fun e : Effect App => e.calledAt = none) one o script)

@[simp] theorem calls_set (pointer : Option Nat) (now : QuicTime) (intervalMs : UInt64) :
    calls (o.set pointer now intervalMs).2 = [] := by
  cases pointer <;> rfl

theorem calls_step (event : Event App) : ∀ time ∈ calls (step k o event).2, time ∈ event.readings := by
  cases event with
  | setInterval r => simp [step, k.setInterval_eq, calls_setInterval]
  | fire id now script after =>
    cases due : o.due id now with
    | none => simp [step_idle due, calls]
    | some alarm =>
      rw [step_due due]
      cases cb : alarm.delegate.cb with
      | none => simp [Owner.onAlarm, cb]
      | some app =>
        have one (effects : List (Effect App)) :
            calls (.called now alarm.delegate.intervalMs app :: effects) = now :: calls effects := rfl
        simp [Owner.onAlarm, cb, one, calls_script, Event.readings]

section Fire

variable {trace : List (Effect App)} {id : Nat} {now after : QuicTime} {alarm : Alarm App}

/-- Without a callback the alarm that fires is only set again. -/
theorem Waits.rearm (waits : Waits trace o) (due : o.due id now = some alarm) (cb : alarm.delegate.cb = none)
    (script : List (Registration App)) (past : ∀ earlier ∈ calls trace, earlier ≤ after)
    (fits : after.toInt + 1000 * alarm.delegate.intervalMs.toNat < 2 ^ 63) :
    Waits (trace ++ ((o.disarm id).onAlarm alarm.delegate now script after).2)
      ((o.disarm id).onAlarm alarm.delegate now script after).1 := by
  obtain ⟨found, back, -⟩ := waits.sound.due due
  obtain ⟨-, disarmed⟩ := waits.fired due
  have idle : Waits trace (o.disarm id) := by
    simpa using disarmed [] (by simpa using waits.apart)
  simp only [Owner.onAlarm, cb, back]
  apply idle.set id after past fits
  intro same there
  rw [Owner.disarm_found found] at there
  rw [← Option.some.inj there]

/-- With a callback: the invocation, what the callback registers, and the alarm set again if it is still there. -/
theorem Waits.callback (waits : Waits trace o) (due : o.due id now = some alarm) (cb : alarm.delegate.cb = some app)
    (script : List (Registration App))
    (first : ∀ reading ∈ script.map Registration.now ++ [after], now ≤ reading)
    (past : ∀ reading ∈ script.map Registration.now ++ [after], ∀ earlier ∈ calls trace, earlier ≤ reading)
    (fitsScript : ∀ r ∈ script, r.Fits)
    (fitsAfter : after.toInt + 1000 * alarm.delegate.intervalMs.toNat < 2 ^ 63) :
    Waits (trace ++ ((o.disarm id).onAlarm alarm.delegate now script after).2)
      ((o.disarm id).onAlarm alarm.delegate now script after).1 := by
  obtain ⟨-, back, -⟩ := waits.sound.due due
  obtain ⟨waited, disarmed⟩ := waits.fired due
  have begun := disarmed [.called now alarm.delegate.intervalMs app]
    (Machine.licensed_concat.mpr ⟨waits.apart, waited⟩)
  have bounded (reading : QuicTime) (member : reading ∈ script.map Registration.now ++ [after]) :
      ∀ earlier ∈ calls (trace ++ [.called now alarm.delegate.intervalMs app]), earlier ≤ reading := by
    intro earlier called
    rw [calls_append, List.mem_append] at called
    rcases called with called | called
    · exact past reading member earlier called
    · obtain rfl := List.mem_singleton.mp called
      exact first reading member
  have nested := begun.script script
    (fun r member => bounded r.now (List.mem_append_left _ (List.mem_map_of_mem member))) fitsScript
  have all : ∀ earlier ∈ calls (trace ++ [.called now alarm.delegate.intervalMs app] ++
      (Machine.run Owner.setInterval (o.disarm id) script).2), earlier ≤ after := by
    rw [calls_append, calls_script, List.append_nil]
    exact bounded after (by simp)
  have own : ∀ same, (Machine.run Owner.setInterval (o.disarm id) script).1.alarm? id = some same →
      same.delegate.intervalMs = alarm.delegate.intervalMs := by
    intro same kept
    rw [waits.sound.script_alarm? due] at kept
    split at kept
    · rw [← Option.some.inj kept]
    · cases kept
  have ended := nested.set id after all fitsAfter own
  simp only [Owner.onAlarm, cb, back]
  simpa only [List.append_assoc, List.cons_append, List.nil_append] using ended

theorem Waits.step (waits : Waits trace o) (event : Event App) (ordered : event.readings.Pairwise (· ≤ ·))
    (past : ∀ reading ∈ event.readings, ∀ earlier ∈ calls trace, earlier ≤ reading) (fits : Fits o event) :
    Waits (trace ++ (step k o event).2) (step k o event).1 := by
  cases event with
  | setInterval r =>
    simp only [Interval.step, k.setInterval_eq]
    exact waits.setInterval r (past r.now (List.mem_singleton.mpr rfl)) fits
  | fire id now script after =>
    cases due : o.due id now with
    | none => simpa [step_idle due] using waits
    | some alarm =>
      obtain ⟨fitsScript, fitsAfter⟩ := fits alarm due
      have laterReadings (reading : QuicTime) (member : reading ∈ script.map Registration.now ++ [after]) :
          ∀ earlier ∈ calls trace, earlier ≤ reading := past reading (List.mem_cons_of_mem _ member)
      rw [step_due due]
      cases cb : alarm.delegate.cb with
      | none => exact waits.rearm due cb script (laterReadings after (by simp)) fitsAfter
      | some app =>
        exact waits.callback due cb script (List.pairwise_cons.mp ordered).1 laterReadings
          (fitsScript (by rw [cb]; rfl)) fitsAfter

end Fire

/-- In a run whose deadlines fit, what has been invoked was invoked at a reading of the past. -/
theorem run_waits (events : List (Event App)) (monotone : (events.flatMap Event.readings).Pairwise (· ≤ ·))
    (fits : Machine.Licensed (fun past event => Fits (Machine.run (step k) ({} : Owner App) past).1 event) events) :
    Waits (Machine.run (step k) {} events).2 (Machine.run (step k) ({} : Owner App) events).1 ∧
      ∀ time ∈ calls (Machine.run (step k) ({} : Owner App) events).2, time ∈ events.flatMap Event.readings := by
  apply Machine.run_history_of (fun past trace o => Waits trace o ∧
      ∀ time ∈ calls trace, time ∈ past.flatMap Event.readings)
    (fun past o event => Fits o event ∧ ((past ++ [event]).flatMap Event.readings).Pairwise (· ≤ ·))
  · rintro past trace o event ⟨waits, seen⟩ ⟨fits, ordered⟩
    rw [List.flatMap_append, List.flatMap_singleton, List.pairwise_append] at ordered
    obtain ⟨-, inside, between⟩ := ordered
    refine ⟨waits.step event inside (fun reading member earlier called => ?_) fits, ?_⟩
    · exact between earlier (seen earlier called) reading member
    · intro time called
      rw [calls_append, List.mem_append] at called
      rw [List.flatMap_append, List.flatMap_singleton, List.mem_append]
      exact called.imp (seen time) (calls_step event time)
  · exact ⟨Waits.initial, nofun⟩
  · rintro past event rest rfl
    have front : past ++ event :: rest = (past ++ [event]) ++ rest := by simp
    refine ⟨fits past event rest rfl, monotone.sublist ?_⟩
    rw [front, (past ++ [event]).flatMap_append]
    exact List.sublist_append_left _ _

/-- Under a clock that does not run backwards, the timers of each of the four owners keep their
intervals exactly in those runs in which every deadline that is computed fits. -/
theorem spaced_iff (k : Kind) (events : List (Event App))
    (monotone : (events.flatMap Event.readings).Pairwise (· ≤ ·)) :
    Spaced k events ↔
      Machine.Licensed (fun past event => Fits (Machine.run (step k) ({} : Owner App) past).1 event) events := by
  have later : (∀ e ∈ (Machine.run (step k) ({} : Owner App) events).2, e.Later) ↔
      Machine.Licensed (fun past event => Fits (Machine.run (step k) ({} : Owner App) past).1 event) events :=
    Machine.run_good_iff (fun _ => True) Fits (fun _ _ _ => trivial) (fun _ event _ => step_later_iff event) trivial
      events
  constructor
  · intro spaced
    exact later.mp spaced.later
  · intro fits
    exact ⟨later.mpr fits, (run_waits events monotone fits).1.apart⟩

/-- A millisecond at a time. -/
theorem spaced_iff_short :
    ((([.setInterval ⟨0, 1, some ()⟩, .fire 0 1000 [] 1001] : List (Event Unit)).flatMap
      Event.readings).Pairwise (· ≤ ·)) ∧
    Spaced .clientSession [.setInterval ⟨0, 1, some ()⟩, .fire 0 1000 [] 1001] := by
  refine ⟨by decide, (spaced_iff .clientSession _ (by decide)).mpr ?_⟩
  rw [Machine.licensed_cons, Machine.licensed_singleton]
  have fits : (0 : QuicTime).toInt + 1000 * (1 : UInt64).toNat < 2 ^ 63 := by decide
  refine ⟨fits, ?_⟩
  intro alarm due
  have first : (Machine.run (step .clientSession) ({} : Owner Unit) [.setInterval ⟨0, 1, some ()⟩]).1.due 0 1000 =
      some ⟨⟨1, some (), some 0⟩, some 1000⟩ := by decide
  obtain rfl := Option.some.inj (first.symm.trans due)
  exact ⟨nofun, by decide⟩

/-- The longest interval of all is minus one millisecond: the callback is invoked without end. -/
theorem spaced_busy :
    (([.setInterval ⟨5000, 0xFFFFFFFFFFFFFFFF, some ()⟩, .fire 0 5000 [] 5000, .fire 0 5001 [] 5001] :
      List (Event Unit)).flatMap Event.readings).Pairwise (· ≤ ·) ∧
    (Machine.run (step .sessionWrapper) ({} : Owner Unit)
      [.setInterval ⟨5000, 0xFFFFFFFFFFFFFFFF, some ()⟩, .fire 0 5000 [] 5000, .fire 0 5001 [] 5001]).2 =
      [.registered (some ()), .set true 5000 0xFFFFFFFFFFFFFFFF 4000, .called 5000 0xFFFFFFFFFFFFFFFF (),
        .set true 5000 0xFFFFFFFFFFFFFFFF 4000, .called 5001 0xFFFFFFFFFFFFFFFF (),
        .set true 5001 0xFFFFFFFFFFFFFFFF 4001] ∧
    ¬ Spaced .sessionWrapper
      ([.setInterval ⟨5000, 0xFFFFFFFFFFFFFFFF, some ()⟩, .fire 0 5000 [] 5000, .fire 0 5001 [] 5001] :
        List (Event Unit)) := by
  have trace : (Machine.run (step .sessionWrapper) ({} : Owner Unit)
      [.setInterval ⟨5000, 0xFFFFFFFFFFFFFFFF, some ()⟩, .fire 0 5000 [] 5000, .fire 0 5001 [] 5001]).2 =
      [.registered (some ()), .set true 5000 0xFFFFFFFFFFFFFFFF 4000, .called 5000 0xFFFFFFFFFFFFFFFF (),
        .set true 5000 0xFFFFFFFFFFFFFFFF 4000, .called 5001 0xFFFFFFFFFFFFFFFF (),
        .set true 5001 0xFFFFFFFFFFFFFFFF 4001] := by decide
  refine ⟨by decide, trace, fun spaced => ?_⟩
  have later : (5000 : QuicTime).toInt + 1000 * (0xFFFFFFFFFFFFFFFF : UInt64).toNat ≤ (4000 : QuicTime).toInt :=
    spaced.later (.set true 5000 0xFFFFFFFFFFFFFFFF 4000) (by rw [trace]; decide)
  exact absurd later (by decide)

end WebTransport.Interval
