import Transceiver.Proofs.Routines
import Transceiver.Proofs.Run
import Transceiver.Proofs.Ticks

/-!
A request that is granted takes the radio over from whatever came before it.

The operation before may have been left at any point: with an interrupt that waits, a watchdog that
is armed, lines that are unmasked, the antenna switched. The modes differ in when they arm their own
watchdog and note whether they send, but not in what becomes of these leftovers.
`perform_of_granted` is the one system in which every granted request ends, and of the radio before
it two things are left in it: the time of the last capture, and the note about sending if the mode
writes none.

The board is the part that the driver works on. What it is like at the end is said for the board of
any radio at rest in place of the one that was found, so it can depend on the start routine only.
The deadline of the watchdog is given in plain arithmetic, for every rate of the clock and every
airtime. The guard is rounded down and may wrap, which the sum does anyway; the airtime in ticks
wraps before it is stretched, and there it makes a difference.
-/

namespace Transceiver

/-- The window in which an operation of the mode has to end, if it is given one. -/
def Mode.window? (now : Ticks) (op : Operation) : Mode → Option Window
  | transmit => some { opens := now, guardMillis := 20, length := op.length }
  | receive => some { opens := op.receiveAt, guardMillis := 5, length := 255 }
  | detect => some { opens := now, guardMillis := 10, length := 255 }
  | _ => none

/-- What a request of the mode notes about sending, if anything. -/
def Mode.notes? : Mode → Option Bool
  | transmit => some true
  | receive | scan | detect => some false
  | stop | carrier | assess | calibrate | stream => none

/-- A driver that states the same airtimes after a start as before it. -/
def Driver.KeepsAirtime {σ ε : Type} (d : Driver σ ε) : Prop :=
  ∀ activity x chip m length,
    d.airtime (d.start activity x chip).chip m length = d.airtime chip m length

theorem Device.driver_keepsAirtime (device : Device) : device.driver.KeepsAirtime := by
  cases device <;> exact fun _ _ _ _ _ => rfl

theorem Driver.KeepsAirtime.attempt {σ ε : Type} {d : Driver σ ε} (hd : d.KeepsAirtime)
    (mode : Mode) (x : Exchange) (chip : σ) (m : Modulation) (length : UInt8) :
    d.airtime (d.attempt mode x chip).chip m length = d.airtime chip m length := by
  unfold Driver.attempt
  split
  · exact hd _ x chip m length
  · rfl

/-- No order looks at the depth, so boards that differ in nothing else still do after it. -/
theorem Board.after_setDepth (b : Board) (depth : Int) (orders : List BoardCall) :
    ∃ depth', ({ b with depth } : Board).after orders =
      { b.after orders with depth := depth' } := by
  induction orders generalizing b depth with
  | nil => exact ⟨depth, rfl⟩
  | cons c orders ih =>
      obtain ⟨k, hk⟩ : ∃ k, c.apply { b with depth } = { c.apply b with depth := k } := by
        cases c <;> exact ⟨_, rfl⟩
      show ∃ depth', (c.apply { b with depth }).after orders = _
      rw [hk]
      exact ih (c.apply b) k

/-- Microseconds on the air become ticks, and the low word of these is stretched. -/
theorem Window.toNat_deadline (w : Window) (rate micros : UInt32) :
    (w.deadline rate micros).toNat =
      (w.opens.toNat + w.guardMillis.toNat * rate.toNat / 1000 +
        110 * (micros.toNat * rate.toNat / 1000000 % 2 ^ 32) / 100) % 2 ^ 32 := by
  simp only [deadline, UInt32.toNat_add, Ticks.toNat_ofMillis, Ticks.toNat_withMargin,
    Ticks.toNat_ofMicros, Nat.mul_comm 110]
  omega

namespace System

variable {σ ε : Type}

/-- A granted request from the first call to the last. The driver is asked for the time on the air
when it has started, for a detection before that. -/
theorem perform_of_granted {s : System σ} {d : Driver σ ε} {mode : Mode}
    (hmode : mode ≠ .calibrate)
    (h : (d.attempt mode s.exchange (d.sleep s.chip).1).outcome = .ok ()) :
    let asleep := (d.sleep s.chip).1
    let reply := d.attempt mode s.exchange asleep
    let asked := if mode = .detect then asleep else reply.chip
    ∃ calls, (s.perform d mode).1 =
      { s with
        chip := reply.chip
        board := s.board.rested.after reply.orders
        control := { s.control with
          pending := none
          sending := mode.notes?.getD s.control.sending }
        deferral := s.deferral.write ((mode.window? s.clock.now s.exchange.operation).map fun w =>
          .watchdog (w.deadline s.clock.rate
            (d.airtime asked s.exchange.operation.channel.modulation w.length)))
        trace := s.trace ++ calls } := by
  intro asleep reply asked
  cases mode
  case calibrate => exact absurd rfl hmode
  case stop =>
      rw [perform, quiesce_eq]
      exact ⟨_, rfl⟩
  all_goals
    simp only [Driver.attempt, Mode.activity?] at h
    rw [perform, launch_of_ok
      (by simpa [quiesce_eq, noteSending, watch_eq, arm_eq, log] using h)]
    simp only [started_eq, quiesce_eq, noteSending, watch_eq, arm_eq, log, List.append_assoc,
      Deferral.write_write]
    exact ⟨_, rfl⟩

/-- The radio is at work for a request and for nothing before it. The driver has started it by
`reply`, and `micros` gives the time on the air by the length of a packet. -/
structure Granted (s : System σ) (mode : Mode) (reply : Reply σ ε) (micros : UInt8 → UInt32)
    (t : System σ) : Prop where
  pending : t.control.pending = none
  /-- Lines, antenna and oscillator are what the start makes of them on any board at rest. -/
  board : ∀ b : Board, ∃ depth, t.board = { b.rested.after reply.orders with depth }
  stopped : mode = .stop → t.board = s.board.rested
  depth : (∀ b : Board, (b.after reply.orders).depth = b.depth) → t.board.depth = s.board.depth
  watched : ∀ w, mode.window? s.clock.now s.exchange.operation = some w →
    ∃ deadline : Ticks, t.deferral.held = some (.watchdog deadline) ∧
      t.scheduled = some (.guardedAt deadline .watchdog) ∧
      deadline.toNat = (w.opens.toNat + w.guardMillis.toNat * s.clock.rate.toNat / 1000 +
        110 * ((micros w.length).toNat * s.clock.rate.toNat / 1000000 % 2 ^ 32) / 100) % 2 ^ 32
  unwatched : mode.window? s.clock.now s.exchange.operation = none →
    t.deferral.held = none ∧ t.scheduled = none
  sending : t.control.sending = mode.notes?.getD s.control.sending
  capturedAt : t.control.capturedAt = s.control.capturedAt
  exchange : t.exchange = s.exchange
  clock : t.clock = s.clock
  mac : t.deferral.agenda.mac = s.deferral.agenda.mac
  completions : t.completions = s.completions

/-- What a granted request leaves behind does not depend on what it has found, the time of the last
capture and the note about sending excepted. The board is that of a radio at rest on which the
driver has started, the watchdog is that of the window of the request, and no interrupt waits. -/
theorem granted_of_ok (s : System σ) {d : Driver σ ε} {mode : Mode} (hmode : mode ≠ .calibrate)
    (hairtime : d.KeepsAirtime) (hok : (s.perform d mode).2 = .ok ()) :
    let asleep := (d.sleep s.chip).1
    Granted s mode (d.attempt mode s.exchange asleep)
      (d.airtime asleep s.exchange.operation.channel.modulation) (s.perform d mode).1 := by
  intro asleep
  have hreply : (d.attempt mode s.exchange asleep).outcome = .ok () :=
    (perform_spec s d hmode).1.symm.trans hok
  obtain ⟨calls, heq⟩ := perform_of_granted hmode hreply
  -- The driver is asked before the start or after it, and gives the same answer.
  have hasked : d.airtime (if mode = .detect then asleep else
      (d.attempt mode s.exchange asleep).chip) = d.airtime asleep := by
    split
    · rfl
    · exact funext fun m => funext fun length => hairtime.attempt mode s.exchange asleep m length
  rw [heq, hasked]
  constructor
  case board =>
      intro b
      exact b.rested.after_setDepth s.board.depth _
  case stopped =>
      rintro rfl
      rfl
  case depth => exact fun hneutral => hneutral s.board.rested
  case watched =>
      intro w hw
      exact ⟨_, by simp [hw], by simp [scheduled, hw, Deferred.entry], w.toNat_deadline _ _⟩
  case unwatched =>
      intro hnone
      simp [scheduled, hnone]
  all_goals simp [System.clock, System.completions]

/-- A transmission is under way and its interrupt waits when a detection is asked for, shortly
before the clock wraps. The chip receives now, and is given time until after the wrap. -/
theorem detection_after_transmission :
    let d := Device.stated.driver
    let s := (bench []).run d [.adjust fun chip => { chip with airtime := 46336 },
      .setClock 4294967290, .perform .transmit, .capture 1 none]
    let t := (s.perform d .detect).1
    s.control.pending = some 1 ∧ s.board.antenna = .transmit ∧ s.control.sending = true ∧
      t.control.pending = none ∧ t.board.antenna = .receive ∧ t.board.mask = 3 ∧
      t.control.sending = false ∧ t.board.depth = s.board.depth ∧
      ∃ deadline : Ticks, t.deferral.held = some (.watchdog deadline) ∧ deadline.toNat = 3804 := by
  intro d s t
  have hok : (s.perform d .detect).2 = .ok () := rfl
  have hgranted : Granted s .detect (d.attempt .detect s.exchange (d.sleep s.chip).1)
      (d.airtime (d.sleep s.chip).1 s.exchange.operation.channel.modulation) t :=
    granted_of_ok s (by decide) (Device.driver_keepsAirtime .stated) hok
  have horders : (d.attempt .detect s.exchange (d.sleep s.chip).1).orders =
      Script.startOrders .detect := rfl
  obtain ⟨depth, hboard⟩ := hgranted.board .powered
  rw [horders] at hboard
  obtain ⟨deadline, hheld, -, hdeadline⟩ := hgranted.watched _ rfl
  have hdepth : t.board.depth = s.board.depth :=
    hgranted.depth (by rw [horders]; exact fun _ => rfl)
  exact ⟨rfl, rfl, rfl, hgranted.pending, by rw [hboard]; rfl, by rw [hboard]; rfl,
    hgranted.sending, hdepth, deadline, hheld, hdeadline.trans (by decide)⟩

end System

end Transceiver
