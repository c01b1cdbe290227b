import WebTransport.Theory.Machine

/-! Interval timers of streams and sessions. `setInterval` makes a QUIC alarm with a new
delegate and puts it in the place of the owner's last one, which destroys that; the delegate
keeps a pointer to its alarm and sets it again after each callback. The alarm, its clock and
the event loop are those of quiche: a set alarm fires once, at its deadline or later. -/
namespace WebTransport.Interval

/-- Microseconds. `QuicTime` and `QuicTime::Delta` hold signed 64-bit counts. -/
abbrev QuicTime := Int64

def fromMilliseconds (ms : Int64) : Int64 := ms * 1000

/-- `clock->Now() + QuicTime::Delta::FromMilliseconds(interval_ms)`: the unsigned argument is
converted on the call. -/
def deadline (now : QuicTime) (intervalMs : UInt64) : QuicTime := now + fromMilliseconds intervalMs.toInt64

/-- `IntervalAlarmDelegate` and `ClientIntervalAlarmDelegate`. Nothing reads `alarm_` before
`SetAlarm`, so it does not matter that one constructor leaves it uninitialized. -/
structure Delegate (App : Type) where
  intervalMs : UInt64
  cb : Option App
  alarm : Option Nat := none
  deriving DecidableEq, Repr

structure Alarm (App : Type) where
  delegate : Delegate App
  deadline : Option QuicTime := none
  deriving DecidableEq, Repr

/-- One stream or session with all the alarms ever made for it, by number. A destroyed one is gone. -/
structure Owner (App : Type) where
  alarms : List (Option (Alarm App)) := []
  intervalAlarm : Option Nat := none
  deriving DecidableEq, Repr

/-- The arguments of `setInterval`, with what the clock reads in it. -/
structure Registration (App : Type) where
  now : QuicTime
  intervalMs : UInt64
  cb : Option App
  deriving DecidableEq, Repr

inductive Effect (App : Type) where
  /-- `setInterval` was called with this callback, which can be empty. -/
  | registered (cb : Option App)
  /-- An alarm fired at `now` and its callback was invoked. -/
  | called (now : QuicTime) (intervalMs : UInt64) (cb : App)
  /-- `Set` was called with a deadline computed at `now`, on an alarm that exists or does not. -/
  | set (live : Bool) (now : QuicTime) (intervalMs : UInt64) (deadline : QuicTime)
  deriving DecidableEq, Repr

namespace Owner

variable {App : Type} (o : Owner App)

def alarm? (id : Nat) : Option (Alarm App) := (o.alarms[id]?).join

def createAlarm (delegate : Delegate App) : Owner App := { o with alarms := o.alarms ++ [some ⟨delegate, none⟩] }

/-- `interval_alarm_.reset(alarm)`: the pointer is replaced, then the alarm that it held is destroyed. -/
def reset (id : Nat) : Owner App :=
  match o.intervalAlarm with
  | some old => ⟨o.alarms.set old none, some id⟩
  | none => { o with intervalAlarm := some id }

def update (id : Nat) (f : Alarm App → Alarm App) : Owner App :=
  { o with alarms := o.alarms.modify id (Option.map f) }

def setAlarm (id : Nat) : Owner App :=
  o.update id fun alarm => { alarm with delegate := { alarm.delegate with alarm := some id } }

def set (pointer : Option Nat) (now : QuicTime) (intervalMs : UInt64) : Owner App × List (Effect App) :=
  match pointer with
  | some id =>
    (o.update id fun alarm => { alarm with deadline := some (deadline now intervalMs) },
      [.set (o.alarm? id).isSome now intervalMs (deadline now intervalMs)])
  | none => (o, [.set false now intervalMs (deadline now intervalMs)])

/-- The body that the four `setInterval` methods have in common. -/
def setInterval (r : Registration App) : Owner App × List (Effect App) :=
  let id := o.alarms.length
  let o := ((o.createAlarm { intervalMs := r.intervalMs, cb := r.cb }).reset id).setAlarm id
  let (o, effects) := o.set o.intervalAlarm r.now r.intervalMs
  (o, .registered r.cb :: effects)

/-- The body that the two `OnAlarm` methods have in common. The callback makes the calls of the
script; `after` is what the clock reads behind it. -/
def onAlarm (delegate : Delegate App) (now : QuicTime) (script : List (Registration App)) (after : QuicTime) :
    Owner App × List (Effect App) :=
  match delegate.cb with
  | some cb =>
    let (o, nested) := Machine.run setInterval o script
    let (o, armed) := o.set delegate.alarm after delegate.intervalMs
    (o, .called now delegate.intervalMs cb :: nested ++ armed)
  | none => o.set delegate.alarm after delegate.intervalMs

/-- The alarm that the event loop may fire: it exists, it is set and its deadline has passed. -/
def due (id : Nat) (now : QuicTime) : Option (Alarm App) :=
  (o.alarm? id).filter fun alarm => alarm.deadline.any (decide <| · ≤ now)

/-- `QuicAlarm::Fire` clears the deadline and calls the delegate. -/
def disarm (id : Nat) : Owner App := o.update id fun alarm => { alarm with deadline := none }

end Owner

variable {App : Type}

def IntervalAlarmDelegate.onAlarm (o : Owner App) := o.onAlarm
def ClientIntervalAlarmDelegate.onAlarm (o : Owner App) := o.onAlarm

def StreamWrapper.setInterval (o : Owner App) := o.setInterval
def SessionWrapper.setInterval (o : Owner App) := o.setInterval
def ClientBidirectionalStream.setInterval (o : Owner App) := o.setInterval
def ClientSession.setInterval (o : Owner App) := o.setInterval

inductive Kind where
  | streamWrapper
  | sessionWrapper
  | clientBidirectionalStream
  | clientSession
  deriving DecidableEq, Repr

namespace Kind

def setInterval : Kind → Owner App → Registration App → Owner App × List (Effect App)
  | streamWrapper => StreamWrapper.setInterval
  | sessionWrapper => SessionWrapper.setInterval
  | clientBidirectionalStream => ClientBidirectionalStream.setInterval
  | clientSession => ClientSession.setInterval

def onAlarm : Kind → Owner App → Delegate App → QuicTime → List (Registration App) → QuicTime →
    Owner App × List (Effect App)
  | streamWrapper | sessionWrapper => IntervalAlarmDelegate.onAlarm
  | clientBidirectionalStream | clientSession => ClientIntervalAlarmDelegate.onAlarm

theorem setInterval_eq (k : Kind) : (k.setInterval : Owner App → _) = Owner.setInterval := by
  cases k <;> rfl

theorem onAlarm_eq (k : Kind) : (k.onAlarm : Owner App → _) = Owner.onAlarm := by
  cases k <;> rfl

end Kind

inductive Event (App : Type) where
  | setInterval (r : Registration App)
  | fire (id : Nat) (now : QuicTime) (script : List (Registration App)) (after : QuicTime)
  deriving DecidableEq, Repr

def step (k : Kind) (o : Owner App) : Event App → Owner App × List (Effect App)
  | .setInterval r => k.setInterval o r
  | .fire id now script after =>
    match o.due id now with
    | some alarm => k.onAlarm (o.disarm id) alarm.delegate now script after
    | none => (o, [])

end WebTransport.Interval
