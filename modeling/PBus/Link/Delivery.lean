import PBus.Link.Basic

/-! Delivery over a link that is never hung up: the frames one side sends are handed over on
the other, each once and in order, under the serials `Send` returned for them. -/
namespace PBus
open Transition Connection

namespace Link

/-- No hang-up, no input while a frame is being handled, and `Send` is given the frame of a
payload whose length the header can hold. -/
def Calm : Side × Label UInt8 → Prop
  | (_, .hungUp) => False
  | (_, .sent _ data) => ∃ payload, data = frame payload ∧ payload.length < 2 ^ 32
  | (_, .read _ nested _ _) => nested = false
  | _ => True

instance (l : Side × Label UInt8) : Decidable (Calm l) :=
  match l with
  | (_, .hungUp) => inferInstanceAs (Decidable False)
  | (_, .sent _ data) =>
    decidable_of_iff (data = frame (data.drop 4) ∧ (data.drop 4).length < 2 ^ 32)
      ⟨fun met => ⟨_, met⟩, by rintro ⟨payload, rfl, fits⟩; exact ⟨rfl, fits⟩⟩
  | (_, .read _ nested _ _) => inferInstanceAs (Decidable (nested = false))
  | (_, .refused _) | (_, .wrote _ _) | (_, .handled _) => inferInstanceAs (Decidable True)

/-- What `Send` was called with on a side: the serial it returned and the payload. -/
def offered (side : Side) (hist : List (Side × Label UInt8)) : List (UInt32 × List UInt8) :=
  (sends (of side hist)).map fun call => (call.1, call.2.drop 4)

/-- What `OnIncomingData` was called with on a side: the serial and the payload. -/
def delivered (side : Side) (hist : List (Side × Label UInt8)) : List (UInt32 × List UInt8) :=
  ((of side hist).flatMap Label.dispatched).map fun d => (d.serial, d.payload)

/-- Nothing that `side` sent is still queued, under way, or being handled. -/
def Settled (side : Side) (k : Link) : Prop :=
  (k.ends side).conn.writeQueue = [] ∧ k.wire side = [] ∧ (k.ends side.other).stack = []

theorem delivered_eq (side : Side) (hist : List (Side × Label UInt8)) :
    delivered side hist = (handed (of side hist)).map fun call => (call.1, call.2.drop 4) := by
  simp [delivered, handed, Dispatch.payload_eq]

theorem calm_frames {hist : List (Side × Label UInt8)} (calm : ∀ l ∈ hist, Calm l) (side : Side) :
    ∀ u ∈ sentFrames (of side hist), Delimited.Whole (frames UInt8) u := by
  intro u hu
  obtain ⟨l, hl, hu⟩ := List.mem_flatMap.mp hu
  have met := calm _ (mem_of.mp hl)
  cases l with
  | sent serial data =>
    obtain rfl := List.mem_singleton.mp hu
    obtain ⟨payload, rfl, fits⟩ := met
    exact frame_whole fits
  | _ => simp [Label.sentData] at hu

/-- The frames handed over on one side come first among those sent by the other, and are all
of them once nothing is left of the stream. -/
theorem handed_sent {start k : Link} {hist : List (Side × Label UInt8)} (started : Started start)
    (run : Reaches Step start hist k) (calm : ∀ l ∈ hist, Calm l) (side : Side) :
    ∃ us, handed (of side.other hist) = numbered us ∧ us <+: sentFrames (of side hist) ∧
      (Settled side k → us = sentFrames (of side hist)) := by
  have flow := Outflow.run (started.ends side) (end_run run side)
  have whole := calm_frames calm side
  have sent := Delimited.parse_units whole []
  rw [List.append_nil, Delimited.parse_unfinished Delimited.partial_nil, List.append_nil,
    ← flow.bytes, wire_run started run side, List.append_assoc] at sent
  cases Reentrancy.progress_run (started.ends side.other) (end_run run side.other) with
  | sequential us quiet decoding inOrder =>
    obtain ⟨first, all⟩ := decoding.parse_eq
    refine ⟨us, inOrder, ?_, ?_⟩
    · have more := Delimited.parse_initial (frames UInt8) (bytesRead (of side.other hist))
        (k.wire side ++ (k.ends side).conn.queued)
      rw [sent] at more
      exact first.trans more
    · rintro ⟨queue, wire, idle⟩
      rw [← all idle]
      have read : (k.ends side).conn.queued = [] := by simp [LocalBusConnection.queued, queue]
      rw [wire, read, List.append_nil, List.append_nil] at sent
      rw [sent]
  | «repeated» before after first second u nested =>
    obtain ⟨l, hl, nested⟩ := nested
    have met := calm _ (mem_of.mp hl)
    cases l <;> simp_all [Calm, Label.nestedInput]

end Link

/-- Every calm run of a link: what is handed to `OnIncomingData` on one side is a beginning
of what `Send` was given on the other, serial by serial and payload by payload, and all of it
once the stream is read up. -/
theorem in_order_exactly_once {start k : Link} {hist : List (Side × Label UInt8)}
    (started : Link.Started start) (run : Guarded Link.Step (fun _ _ => Link.Calm) start hist k)
    (side : Side) :
    Link.delivered side.other hist <+: Link.offered side hist ∧
      (Link.Settled side k → Link.delivered side.other hist = Link.offered side hist) := by
  obtain ⟨us, inOrder, first, all⟩ := Link.handed_sent started run.reaches run.labels side
  have flow := Outflow.run (started.ends side) (Link.end_run run.reaches side)
  rw [Link.delivered_eq, Link.offered, inOrder, flow.serials]
  exact ⟨(numbered_initial first).map _, fun settled => by rw [all settled]⟩

def Link.fresh : Link where
  ends
    | .connecting => { conn := .create ⟨['a'], 1⟩ }
    | .accepting => { conn := .accept ⟨['b'], 1⟩ 0, nextSocket := 1 }
  wire _ := []

/-- Two frames, one of them empty, written in two pieces and read in two others. -/
theorem in_order_exactly_once_cut :
    ∃ (hist : List (Side × Label UInt8)) (k : Link), Reaches Link.Step .fresh hist k ∧
      Link.delivered .accepting hist = [(0, [65]), (1, [])] ∧
      Link.delivered .accepting hist <+: Link.offered .connecting hist := by
  have run := Link.played (fun _ _ => Link.Calm) .fresh
    [(.connecting, .send (frame [65]) true), (.connecting, .send (frame []) true),
      (.connecting, .output 3), (.accepting, .input [1, 0]), (.connecting, .output 9),
      (.connecting, .output 9), (.accepting, .input [0, 0, 65, 0, 0, 0, 0]),
      (.accepting, .returned)]
  exact ⟨_, _, run.reaches, by decide +kernel,
    (in_order_exactly_once (.joined (.outgoing _) (.accepted _ 0) rfl) run .connecting).1⟩

end PBus
