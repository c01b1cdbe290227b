import WebTransport.Interval.Alarm
import WebTransport.Theory.Moments

/-! Which alarm is armed and which callback fires. An owner's pointer always holds the one
alarm that exists, so at most one is armed and only the latest callback fires, also while a
callback registers again. But that destroys the alarm whose delegate is running, and the
delegate sets it all the same when the callback returns. -/
namespace WebTransport.Interval

variable {App : Type}

def Effect.Live : Effect App → Prop
  | .set live _ _ _ => live = true
  | _ => True

namespace Owner

variable {o : Owner App} {id i : Nat} {script : List (Registration App)}

theorem alarm?_createAlarm (delegate : Delegate App) :
    (o.createAlarm delegate).alarm? id = if id = o.alarms.length then some ⟨delegate, none⟩ else o.alarm? id := by
  unfold alarm? createAlarm
  rcases Nat.lt_trichotomy id o.alarms.length with before | rfl | beyond
  · rw [List.getElem?_append_left before, if_neg (by omega)]
  · simp
  · rw [if_neg (by omega), List.getElem?_eq_none (by simp; omega), List.getElem?_eq_none (by omega)]

theorem alarm?_reset (next : Nat) :
    (o.reset next).alarm? id = if o.intervalAlarm = some id then none else o.alarm? id := by
  unfold alarm? reset
  cases o.intervalAlarm with
  | none => rfl
  | some old =>
    simp only [List.getElem?_set, Option.some.injEq]
    split
    · split <;> rfl
    · rfl

theorem alarm?_update (f : Alarm App → Alarm App) :
    (o.update i f).alarm? id = if i = id then (o.alarm? id).map f else o.alarm? id := by
  unfold alarm? update
  simp only [List.getElem?_modify]
  split
  · cases o.alarms[id]? <;> rfl
  · cases o.alarms[id]? <;> rfl

@[simp] theorem intervalAlarm_reset (next : Nat) : (o.reset next).intervalAlarm = some next := by
  unfold reset
  split <;> rfl

@[simp] theorem intervalAlarm_update (f : Alarm App → Alarm App) : (o.update i f).intervalAlarm = o.intervalAlarm := rfl

@[simp] theorem intervalAlarm_createAlarm (delegate : Delegate App) :
    (o.createAlarm delegate).intervalAlarm = o.intervalAlarm := rfl

@[simp] theorem length_reset (next : Nat) : (o.reset next).alarms.length = o.alarms.length := by
  unfold reset
  split <;> simp

@[simp] theorem length_createAlarm (delegate : Delegate App) :
    (o.createAlarm delegate).alarms.length = o.alarms.length + 1 := by
  simp [createAlarm]

@[simp] theorem length_update (f : Alarm App → Alarm App) : (o.update i f).alarms.length = o.alarms.length := by
  simp [update]

/-- The pointer of the owner is to an alarm that was made, every alarm that exists is there, and its
delegate points back to it. -/
structure Sound (o : Owner App) : Prop where
  made : ∀ id, o.intervalAlarm = some id → id < o.alarms.length
  current : ∀ id alarm, o.alarm? id = some alarm → o.intervalAlarm = some id
  back : ∀ id alarm, o.alarm? id = some alarm → alarm.delegate.alarm = some id

theorem Sound.initial : Sound ({} : Owner App) := ⟨nofun, nofun, nofun⟩

def renewed (o : Owner App) (r : Registration App) : Owner App :=
  ((o.createAlarm { intervalMs := r.intervalMs, cb := r.cb }).reset o.alarms.length).setAlarm o.alarms.length

theorem setInterval_renewed (r : Registration App) : o.setInterval r =
    ((o.renewed r).update o.alarms.length fun alarm => { alarm with deadline := some (deadline r.now r.intervalMs) },
      [.registered r.cb,
        .set ((o.renewed r).alarm? o.alarms.length).isSome r.now r.intervalMs (deadline r.now r.intervalMs)]) := by
  simp [setInterval, set, setAlarm, renewed]

theorem renewed_alarm? (r : Registration App) (sound : o.Sound) :
    (o.renewed r).alarm? id =
      if id = o.alarms.length then some ⟨⟨r.intervalMs, r.cb, some id⟩, none⟩ else none := by
  have apart : o.intervalAlarm ≠ some o.alarms.length := fun same => absurd (sound.made _ same) (by omega)
  simp only [renewed, setAlarm, alarm?_update, alarm?_reset, alarm?_createAlarm, intervalAlarm_createAlarm]
  by_cases new : id = o.alarms.length
  · subst new
    simp [apart]
  · rw [if_neg (Ne.symm new), if_neg new, if_neg new]
    split
    · rfl
    · rename_i other
      exact Option.eq_none_iff_forall_not_mem.mpr fun alarm found => other (sound.current id alarm found)

theorem setInterval_alarm? (r : Registration App) (sound : o.Sound) :
    (o.setInterval r).1.alarm? id = if id = o.alarms.length then
      some ⟨⟨r.intervalMs, r.cb, some id⟩, some (deadline r.now r.intervalMs)⟩ else none := by
  rw [setInterval_renewed, alarm?_update, o.renewed_alarm? r sound]
  by_cases new : id = o.alarms.length
  · subst new
    simp
  · rw [if_neg (Ne.symm new), if_neg new, if_neg new]

theorem setInterval_effects (r : Registration App) (sound : o.Sound) :
    (o.setInterval r).2 = [.registered r.cb, .set true r.now r.intervalMs (deadline r.now r.intervalMs)] := by
  rw [setInterval_renewed, o.renewed_alarm? r sound, if_pos rfl]
  rfl

theorem setInterval_pointer (r : Registration App) : (o.setInterval r).1.intervalAlarm = some o.alarms.length ∧
    (o.setInterval r).1.alarms.length = o.alarms.length + 1 := by
  rw [setInterval_renewed]
  simp [renewed, setAlarm]

theorem Sound.setInterval (r : Registration App) (sound : o.Sound) : (o.setInterval r).1.Sound := by
  obtain ⟨pointer, length⟩ := o.setInterval_pointer r
  refine ⟨?_, ?_, ?_⟩
  · intro id current
    rw [pointer, Option.some.injEq] at current
    omega
  · intro id alarm found
    rw [setInterval_alarm? r sound] at found
    split at found
    · rename_i new
      rw [pointer, new]
    · cases found
  · intro id alarm found
    rw [setInterval_alarm? r sound] at found
    split at found
    · obtain rfl := Option.some.inj found
      rfl
    · cases found

theorem Sound.update (f : Alarm App → Alarm App) (same : ∀ alarm, (f alarm).delegate = alarm.delegate)
    (sound : o.Sound) : (o.update i f).Sound := by
  have was (id : Nat) (alarm : Alarm App) (found : (o.update i f).alarm? id = some alarm) :
      ∃ before, o.alarm? id = some before ∧ alarm.delegate = before.delegate := by
    rw [alarm?_update] at found
    split at found
    · obtain ⟨before, there, rfl⟩ := Option.map_eq_some_iff.mp found
      exact ⟨before, there, same before⟩
    · exact ⟨alarm, found, rfl⟩
  refine ⟨?_, ?_, ?_⟩
  · intro id current
    rw [length_update]
    exact sound.made id current
  · intro id alarm found
    obtain ⟨before, there, -⟩ := was id alarm found
    exact sound.current id before there
  · intro id alarm found
    obtain ⟨before, there, kept⟩ := was id alarm found
    rw [kept]
    exact sound.back id before there

/-- After another registration an alarm that was there is gone for good. -/
theorem script_gone (sound : o.Sound) (there : id < o.alarms.length) (some : script ≠ []) :
    (Machine.run setInterval o script).1.alarm? id = none := by
  obtain ⟨r, rest, rfl⟩ := List.exists_cons_of_ne_nil some
  have kept := Machine.run_invariant (fun o : Owner App => o.Sound ∧ id < o.alarms.length ∧ o.alarm? id = none)
    (fun o r inv => ⟨inv.1.setInterval r, by rw [(o.setInterval_pointer r).2]; omega, by
      rw [setInterval_alarm? r inv.1, if_neg (by omega)]⟩)
    ⟨sound.setInterval r, by rw [(o.setInterval_pointer r).2]; omega, by
      rw [setInterval_alarm? r sound, if_neg (by omega)]⟩ rest
  exact kept.2.2

/-- A registration in a sound state sets the alarm that it made. -/
theorem script_live (sound : o.Sound) (script : List (Registration App)) :
    ∀ e ∈ (Machine.run setInterval o script).2, e.Live := by
  have one (o : Owner App) (r : Registration App) (sound : o.Sound) :
      (∀ e ∈ (o.setInterval r).2, e.Live) ↔ True := by
    rw [setInterval_effects r sound]
    simp [Effect.Live]
  exact (Machine.run_forall_iff Sound (fun o r sound => sound.setInterval r) one sound script).mpr fun _ _ => trivial

theorem set_effects (now : QuicTime) (intervalMs : UInt64) :
    (o.set (some id) now intervalMs).2 = [.set (o.alarm? id).isSome now intervalMs (deadline now intervalMs)] := rfl

theorem Sound.set (sound : o.Sound) (pointer : Option Nat) (now : QuicTime) (intervalMs : UInt64) :
    (o.set pointer now intervalMs).1.Sound := by
  cases pointer with
  | none => exact sound
  | some id => exact sound.update _ fun _ => rfl

theorem Sound.disarm (sound : o.Sound) (id : Nat) : (o.disarm id).Sound := sound.update _ fun _ => rfl

theorem Sound.runScript (sound : o.Sound) (script : List (Registration App)) :
    (Machine.run Owner.setInterval o script).1.Sound :=
  Machine.run_invariant Sound (fun _ r sound => sound.setInterval r) sound script

theorem Sound.onAlarm (sound : o.Sound) (delegate : Delegate App) (now : QuicTime)
    (script : List (Registration App)) (after : QuicTime) : (o.onAlarm delegate now script after).1.Sound := by
  unfold Owner.onAlarm
  split
  · exact (sound.runScript script).set _ _ _
  · exact sound.set _ _ _

theorem disarm_found {alarm : Alarm App} (found : o.alarm? id = some alarm) :
    (o.disarm id).alarm? id = some { alarm with deadline := none } := by
  rw [disarm, alarm?_update, if_pos rfl, found]
  rfl

theorem due_eq_some {alarm : Alarm App} : o.due id now = some alarm ↔
    o.alarm? id = some alarm ∧ ∃ time, alarm.deadline = some time ∧ time ≤ now := by
  simp [due, Option.filter_eq_some_iff, Option.any_eq_true]

theorem Sound.due (sound : o.Sound) {alarm : Alarm App} (due : o.due id now = some alarm) :
    o.alarm? id = some alarm ∧ alarm.delegate.alarm = some id ∧ id < o.alarms.length := by
  have found : o.alarm? id = some alarm := (due_eq_some.mp due).1
  exact ⟨found, sound.back id alarm found, sound.made id (sound.current id alarm found)⟩

/-- When the callback returns, its alarm is as it was or gone. -/
theorem Sound.script_alarm? (sound : o.Sound) {alarm : Alarm App} (due : o.due id now = some alarm)
    (script : List (Registration App)) : (Machine.run Owner.setInterval (o.disarm id) script).1.alarm? id =
      if script = [] then some { alarm with deadline := none } else none := by
  obtain ⟨found, -, there⟩ := sound.due due
  split
  · rename_i none
    rw [none]
    exact disarm_found found
  · rename_i some
    exact script_gone (sound.disarm id) (by rwa [Owner.disarm, length_update]) some

end Owner

variable {o : Owner App} {k : Kind} {id : Nat}

theorem step_due {alarm : Alarm App} (due : o.due id now = some alarm) (script : List (Registration App))
    (after : QuicTime) :
    step k o (.fire id now script after) = (o.disarm id).onAlarm alarm.delegate now script after := by
  simp only [step, due, k.onAlarm_eq]

theorem step_idle (idle : o.due id now = none) (script : List (Registration App)) (after : QuicTime) :
    step k o (.fire id now script after) = (o, []) := by
  simp only [step, idle]

theorem Owner.Sound.step (sound : o.Sound) (k : Kind) (event : Event App) : (step k o event).1.Sound := by
  cases event with
  | setInterval r =>
    simp only [Interval.step, k.setInterval_eq]
    exact sound.setInterval r
  | fire id now script after =>
    cases due : o.due id now with
    | none => rwa [step_idle due]
    | some alarm =>
      rw [step_due due]
      exact (sound.disarm id).onAlarm alarm.delegate now script after

def Reregisters (o : Owner App) : Event App → Prop
  | .setInterval _ => False
  | .fire id now script _ => script ≠ [] ∧ ∃ alarm, o.due id now = some alarm ∧ alarm.delegate.cb.isSome

/-- Only a callback that registers again can leave its delegate without an alarm. -/
theorem step_live_iff (sound : o.Sound) (event : Event App) :
    (∀ e ∈ (step k o event).2, e.Live) ↔ ¬ Reregisters o event := by
  cases event with
  | setInterval r =>
    simp only [step, k.setInterval_eq, o.setInterval_effects r sound]
    simp [Effect.Live, Reregisters]
  | fire id now script after =>
    cases due : o.due id now with
    | none => simp [step_idle due, Reregisters, due]
    | some alarm =>
      obtain ⟨found, back, -⟩ := sound.due due
      rw [step_due due]
      cases cb : alarm.delegate.cb with
      | none =>
        simp [Owner.onAlarm, cb, back, Owner.set_effects, Owner.disarm_found found, Effect.Live, Reregisters, due]
      | some app =>
        have nested := Owner.script_live (sound.disarm id) script
        have last : (∀ e ∈ (Owner.onAlarm (o.disarm id) alarm.delegate now script after).2, e.Live) ↔
            ((Machine.run Owner.setInterval (o.disarm id) script).1.alarm? id).isSome := by
          simp only [Owner.onAlarm, cb, back, Owner.set_effects, List.mem_append, List.mem_cons,
            List.not_mem_nil, or_false]
          constructor
          · intro live
            exact live _ (.inr rfl)
          · rintro live e ((rfl | member) | rfl)
            · trivial
            · exact nested e member
            · exact live
        rw [last, sound.script_alarm? due]
        by_cases some : script = []
        · simp [some, Reregisters]
        · simp [some, Reregisters, due, cb]

def latest (trace : List (Effect App)) : Option App :=
  trace.foldl (fun last e =>
    match e with
    | .registered cb => cb
    | _ => last) none

def Effect.Latest (before : List (Effect App)) : Effect App → Prop
  | .called _ _ cb => latest before = some cb
  | _ => True

structure Tracks (trace : List (Effect App)) (o : Owner App) : Prop where
  sound : o.Sound
  latest : ∀ id alarm, o.alarm? id = some alarm → alarm.delegate.cb = latest trace
  called : Machine.Licensed Effect.Latest trace

namespace Tracks

variable {trace : List (Effect App)}

theorem initial : Tracks [] ({} : Owner App) := ⟨.initial, nofun, .nil⟩

theorem setInterval (tracks : Tracks trace o) (r : Registration App) :
    Tracks (trace ++ (o.setInterval r).2) (o.setInterval r).1 := by
  refine ⟨tracks.sound.setInterval r, ?_, ?_⟩
  · intro id alarm found
    rw [Owner.setInterval_alarm? r tracks.sound] at found
    rw [Owner.setInterval_effects r tracks.sound, Interval.latest, List.foldl_append]
    split at found
    · obtain rfl := Option.some.inj found
      rfl
    · cases found
  · rw [Owner.setInterval_effects r tracks.sound, Machine.licensed_append]
    exact ⟨tracks.called, Machine.Licensed.of_forall (by simp [Effect.Latest])⟩

theorem update (tracks : Tracks trace o) (f : Alarm App → Alarm App)
    (same : ∀ alarm, (f alarm).delegate = alarm.delegate) : Tracks trace (o.update id f) := by
  refine ⟨tracks.sound.update f same, ?_, tracks.called⟩
  intro i alarm found
  rw [Owner.alarm?_update] at found
  split at found
  · obtain ⟨before, there, rfl⟩ := Option.map_eq_some_iff.mp found
    rw [same]
    exact tracks.latest i before there
  · exact tracks.latest i alarm found

theorem set (tracks : Tracks trace o) (pointer : Option Nat) (now : QuicTime) (intervalMs : UInt64) :
    Tracks (trace ++ (o.set pointer now intervalMs).2) (o.set pointer now intervalMs).1 := by
  have later (live : Bool) (time : QuicTime) (tracks : Tracks trace o) :
      Tracks (trace ++ [.set live now intervalMs time]) o := by
    refine ⟨tracks.sound, ?_, Machine.licensed_concat.mpr ⟨tracks.called, trivial⟩⟩
    intro id alarm found
    rw [tracks.latest id alarm found, Interval.latest, Interval.latest, List.foldl_append]
    rfl
  cases pointer with
  | none => exact later _ _ tracks
  | some id => exact (later _ _ tracks).update _ fun _ => rfl

theorem invoked (tracks : Tracks trace o) (now : QuicTime) (intervalMs : UInt64)
    (cb : Interval.latest trace = some app) : Tracks (trace ++ [.called now intervalMs app]) o := by
  refine ⟨tracks.sound, ?_, Machine.licensed_concat.mpr ⟨tracks.called, cb⟩⟩
  intro id alarm found
  rw [tracks.latest id alarm found, Interval.latest, Interval.latest, List.foldl_append]
  rfl

theorem script (tracks : Tracks trace o) (script : List (Registration App)) :
    Tracks (trace ++ (Machine.run Owner.setInterval o script).2) (Machine.run Owner.setInterval o script).1 :=
  Machine.run_trace Tracks (fun _ _ r tracks => tracks.setInterval r) tracks script

theorem step (tracks : Tracks trace o) (k : Kind) (event : Event App) :
    Tracks (trace ++ (step k o event).2) (step k o event).1 := by
  cases event with
  | setInterval r =>
    simp only [Interval.step, k.setInterval_eq]
    exact tracks.setInterval r
  | fire id now script after =>
    cases due : o.due id now with
    | none => simpa [step_idle due] using tracks
    | some alarm =>
      obtain ⟨found, -⟩ := tracks.sound.due due
      have disarmed : Tracks trace (o.disarm id) := tracks.update _ fun _ => rfl
      rw [step_due due]
      cases cb : alarm.delegate.cb with
      | none =>
        simp only [Owner.onAlarm, cb]
        exact disarmed.set _ _ _
      | some app =>
        have begun : Tracks (trace ++ [.called now alarm.delegate.intervalMs app]) (o.disarm id) :=
          disarmed.invoked now _ ((tracks.latest id alarm found).symm.trans cb)
        have ended := (begun.script script).set alarm.delegate.alarm after alarm.delegate.intervalMs
        simp only [Owner.onAlarm, cb]
        simpa only [List.append_assoc, List.cons_append, List.nil_append] using ended

end Tracks

theorem run_tracks (k : Kind) (events : List (Event App)) :
    Tracks (Machine.run (step k) {} events).2 (Machine.run (step k) ({} : Owner App) events).1 := by
  have run := Machine.run_trace Tracks (fun _ _ event tracks => tracks.step k event) Tracks.initial events
  rwa [List.nil_append] at run

def Owner.Armed (o : Owner App) (id : Nat) : Prop := ∃ alarm, o.alarm? id = some alarm ∧ alarm.deadline.isSome

def Owner.OneArmed (o : Owner App) : Prop := ∀ i j, o.Armed i → o.Armed j → i = j

theorem Owner.Sound.oneArmed (sound : o.Sound) : o.OneArmed := by
  rintro i j ⟨a, first, -⟩ ⟨b, second, -⟩
  exact Option.some.inj ((sound.current i a first).symm.trans (sound.current j b second))

/-- At most one alarm is armed, between the events and between the calls inside a callback; only
the callback of the last registration is called; and `Set` is only called on an alarm that exists. -/
structure Current (k : Kind) (events : List (Event App)) : Prop where
  oneArmed : Machine.Always (step k) ({} : Owner App) events fun _ _ o => o.OneArmed
  oneArmedInside : ∀ past id now script after later, events = past ++ .fire id now script after :: later →
    Machine.Always k.setInterval ((Machine.run (step k) ({} : Owner App) past).1.disarm id) script
      fun _ _ o => o.OneArmed
  called : Machine.Licensed Effect.Latest (Machine.run (step k) ({} : Owner App) events).2
  live : ∀ e ∈ (Machine.run (step k) ({} : Owner App) events).2, e.Live

/-- For each of the four owners, the timers keep to that in every run in which no callback of an
alarm that fires registers again on its own owner, and in no other run. -/
theorem current_iff (k : Kind) (events : List (Event App)) :
    Current k events ↔
      Machine.Licensed (fun past event => ¬ Reregisters (Machine.run (step k) ({} : Owner App) past).1 event)
        events := by
  have live : (∀ e ∈ (Machine.run (step k) ({} : Owner App) events).2, e.Live) ↔
      Machine.Licensed (fun past event => ¬ Reregisters (Machine.run (step k) ({} : Owner App) past).1 event)
        events :=
    Machine.run_good_iff Owner.Sound (fun o event => ¬ Reregisters o event) (fun _ event sound => sound.step k event)
      (fun _ event sound => step_live_iff sound event) Owner.Sound.initial events
  rw [← live]
  constructor
  · exact Current.live
  · intro live
    refine ⟨?_, ?_, (run_tracks k events).called, live⟩
    · intro past later _
      exact (run_tracks k past).sound.oneArmed
    · intro past id now script after later _ begun rest _
      rw [k.setInterval_eq]
      exact (((run_tracks k past).sound.disarm id).runScript begun).oneArmed

/-- A callback that changes its own interval: the alarm that fired is gone when the callback returns. -/
theorem current_reregister : ¬ Current .streamWrapper
    ([.setInterval ⟨0, 1, some ()⟩, .fire 0 1000 [⟨1000, 2, some ()⟩] 1001] : List (Event Unit)) := by
  intro current
  have dead : Effect.set false 1001 1 2001 ∈ (Machine.run (step .streamWrapper) ({} : Owner Unit)
      [.setInterval ⟨0, 1, some ()⟩, .fire 0 1000 [⟨1000, 2, some ()⟩] 1001]).2 := by decide
  exact Bool.false_ne_true (current.live _ dead)

end WebTransport.Interval
