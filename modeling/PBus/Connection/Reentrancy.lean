import PBus.Connection.Decoding

/-! Dispatch when handlers run the poll again. The frame being handled is still in
`_readTask` while a nested call of `HandleSocketEvent` reads, so that call hands it over a
second time; without nested input every frame is handed over once and in order. -/
namespace PBus.Connection
open Transition
variable {β : Type} [Cell β]

/-- Each frame of the stream is handed over exactly once, in stream order, with the serials
0, 1, 2, and so on; while calls are suspended the last frames may still be outstanding. -/
structure ExactlyOnce (hist : List (Label β)) (e : Endpoint β) : Prop where
  ordered : handed hist <+: numbered (Delimited.parse (frames β) (bytesRead hist)).1
  complete : e.stack = [] → handed hist = numbered (Delimited.parse (frames β) (bytesRead hist)).1

namespace Reentrancy

/-- The run so far had no nested input, or handed one frame over twice in a row. -/
inductive Progress (hist : List (Label β)) (e : Endpoint β) : Prop where
  | sequential (us : List (List β)) : (∀ l ∈ hist, l.nestedInput = false) →
      Decoding us (bytesRead hist) e → handed hist = numbered us →
      e.conn.readSerial = UInt32.ofNat us.length → Progress hist e
  | repeated (before after : List (UInt32 × List β)) (first second : UInt32) (u : List β) :
      (∃ l ∈ hist, l.nestedInput = true) →
      handed hist = before ++ (first, u) :: (second, u) :: after → Progress hist e

theorem handed_append (past : List (Label β)) (l : Label β) :
    handed (past ++ [l]) = handed past ++ l.dispatched.map fun d => (d.serial, d.frame) := by
  simp [handed]

theorem Progress.onward {past : List (Label β)} {l : Label β} {e : Endpoint β}
    {us : List (List β)} {dispatch : Option (Dispatch β)} {socket : SocketId} {n : UInt32}
    (quiet : ∀ m ∈ past ++ [l], m.nestedInput = false)
    (decoding : Decoding (us ++ Decoding.handedBy dispatch) (bytesRead (past ++ [l])) e)
    (inOrder : handed past = numbered us) (serial : n = UInt32.ofNat us.length)
    (serials : ∀ d ∈ dispatch, d.serial = n ∧ d.socket = socket)
    (number : e.conn.readSerial = n + UInt32.ofNat dispatch.toList.length)
    (dispatched : l.dispatched = dispatch.toList) : Progress (past ++ [l]) e := by
  refine .sequential _ quiet decoding ?_ ?_
  · rw [handed_append, inOrder, dispatched]
    exact Decoding.numberedFrom_dispatch fun d hd => by
      rw [(serials d hd).1, serial, UInt32.zero_add]
  · rw [number, serial, Decoding.ofNat_dispatch]

theorem progress_step {past : List (Label β)} {e e' : Endpoint β} {l : Label β}
    (p : Progress past e) (step : Endpoint.Step e l e') : Progress (past ++ [l]) e' := by
  cases p with
  | repeated before after first second u nested twice =>
    obtain ⟨m, hm, nested⟩ := nested
    refine .repeated before (after ++ l.dispatched.map fun d => (d.serial, d.frame))
      first second u ⟨m, List.mem_append_left _ hm, nested⟩ ?_
    simp [handed_append, twice]
  | sequential us quiet decoding inOrder serial =>
    have quietly (h : l.nestedInput = false) : ∀ m ∈ past ++ [l], m.nestedInput = false := by
      intro m hm
      rcases List.mem_append.mp hm with hm | hm
      · exact quiet m hm
      · rwa [List.mem_singleton.mp hm]
    have shape : e.stack = [] ∨ ∃ a below, e.stack = a :: below := by cases e.stack <;> simp
    rcases step.reads with ⟨received, dispatched, unnested, task, number, stack⟩ |
      ⟨socket, bytes, dispatch, rfl, _, given, taken⟩ | ⟨dispatch, rfl, taken⟩
    · refine .sequential us (quietly unnested) ?_ ?_ (number.trans serial)
      · simpa [bytesRead, received] using decoding.frame task stack
      · simpa [handed_append, dispatched] using inOrder
    · rcases shape with stack | ⟨a, below, stack⟩
      · obtain ⟨next, serials, number⟩ := decoding.read stack taken
        have quiet := quietly (by simp [Label.nestedInput, stack])
        refine .onward quiet ?_ inOrder serial serials number rfl
        simpa [bytesRead, Label.received] using next
      · -- the finished frame is still in place, and the nested loop starts with it
        obtain ⟨_, finished, last, _⟩ := decoding.busy a below stack
        have scanned := e.conn.scan_finished socket bytes finished given
        simp only [Endpoint.loop, scanned, Prod.mk.injEq] at taken
        obtain ⟨rfl, rfl⟩ := taken
        obtain ⟨earlier, rfl⟩ := List.getLast?_eq_some_iff.mp last
        refine .repeated (numbered earlier) [] (UInt32.ofNat earlier.length) e.conn.readSerial
          e.conn.readTask.pending
          ⟨_, List.mem_append_right _ List.mem_cons_self, by simp [Label.nestedInput, stack]⟩ ?_
        rw [handed_append, inOrder, numbered_concat]
        simp [Label.dispatched, Dispatch.frame]
    · obtain ⟨a, below, stack⟩ := shape.resolve_left fun none => by
        simp [Endpoint.handled, none] at taken
      obtain ⟨next, serials, number⟩ := decoding.handled stack taken
      refine .onward (quietly rfl) ?_ inOrder serial serials number rfl
      simpa [bytesRead, Label.received] using next

theorem progress_run {start e : Endpoint β} {hist : List (Label β)}
    (started : Endpoint.Started start) (run : Reaches Endpoint.Step start hist e) :
    Progress hist e := by
  refine run.history progress_step (.sequential [] (by simp) ?_ rfl ?_)
  · cases started <;> exact .fresh _ rfl rfl rfl
  · cases started <;> rfl

omit [Cell β] in
/-- Cells that occur once in a stream keep a frame of it from being met twice. -/
theorem frame_unrepeated {us : List (List β)} {r : List β} {before after : List (List β)}
    {u : List β} (distinct : (us.flatten ++ r).Nodup) (given : u ≠ []) :
    ¬ before ++ u :: u :: after <+: us := by
  rintro ⟨rest, rfl⟩
  have twice : (u ++ u).Nodup := by
    refine distinct.sublist ?_
    simp only [List.flatten_append, List.flatten_cons, List.append_assoc]
    refine List.Sublist.trans ?_ (List.sublist_append_right _ _)
    rw [← List.append_assoc u]
    exact List.sublist_append_left _ _
  obtain ⟨c, hc⟩ := List.exists_mem_of_ne_nil u given
  exact (List.nodup_append.mp twice).2.2 c hc c hc rfl

end Reentrancy

/-- Every run: handing frames over exactly once and in order is the same as never getting
input on the connection while one of its frames is being handled. The cells of the stream
are told apart so that two frames with the same bytes are still two frames. -/
theorem exactly_once_iff {start e : Endpoint β} {hist : List (Label β)}
    (started : Endpoint.Started start) (run : Reaches Endpoint.Step start hist e)
    (distinct : (bytesRead hist).Nodup) :
    ExactlyOnce hist e ↔ ∀ l ∈ hist, l.nestedInput = false := by
  constructor
  · intro exact' l hl
    cases Reentrancy.progress_run started run with
    | sequential us quiet => exact quiet l hl
    | «repeated» before after first second u _ twice =>
      obtain ⟨joined, units, _⟩ := Delimited.parse_sound (frames β) (bytesRead hist)
      have handedFrames : before.map Prod.snd ++ u :: u :: after.map Prod.snd <+:
          (Delimited.parse (frames β) (bytesRead hist)).1 := by
        have ordered := exact'.ordered.map Prod.snd
        rw [numbered, numberedFrom_frames, twice] at ordered
        simpa using ordered
      have whole := units u (handedFrames.subset (by simp))
      rw [← joined] at distinct
      exact False.elim (Reentrancy.frame_unrepeated distinct whole.ne_nil handedFrames)
  · intro quiet
    cases Reentrancy.progress_run started run with
    | sequential us _ decoding inOrder =>
      obtain ⟨ordered, complete⟩ := decoding.parse_eq
      exact ⟨inOrder ▸ numbered_initial ordered, fun idle => by rw [inOrder, complete idle]⟩
    | «repeated» before after first second u nested =>
      obtain ⟨l, hl, nested⟩ := nested
      rw [quiet l hl] at nested
      contradiction

def accepted : Endpoint β := { conn := .accept ⟨['a'], 1⟩ 0, nextSocket := 1 }

/-- A frame of the tagged stream arrives while another one is handled. -/
theorem exactly_once_iff_tagged :
    ∃ (hist : List (Label (Nat × UInt8))) (e : Endpoint (Nat × UInt8)),
      Reaches Endpoint.Step accepted hist e ∧ handed hist ≠ [] ∧ ¬ ExactlyOnce hist e := by
  have run := (Endpoint.played (β := Nat × UInt8) (fun _ _ _ => True) accepted
    [.input [(0, 1), (1, 0), (2, 0), (3, 0), (4, 65)], .input [(5, 1)]]).reaches
  refine ⟨_, _, run, by decide +kernel,
    (exactly_once_iff (.accepted _ 0) run (by decide +kernel)).not.mpr ?_⟩
  decide +kernel

/-- The frame `A` is being handled when the frame `B` arrives: `A` is handed over again,
under the serial of `B`, and `B` comes third. -/
theorem nested_input_repeats :
    ∃ (hist : List (Label UInt8)) (e : Endpoint UInt8),
      Reaches Endpoint.Step accepted hist e ∧ (∃ l ∈ hist, l.nestedInput = true) ∧
      e.stack.length = 0 ∧
      (Delimited.parse (frames UInt8) (bytesRead hist)).1 = [[1, 0, 0, 0, 65], [1, 0, 0, 0, 66]] ∧
      handed hist = [(0, [1, 0, 0, 0, 65]), (1, [1, 0, 0, 0, 65]), (2, [1, 0, 0, 0, 66])] ∧
      ¬ ExactlyOnce hist e :=
  ⟨_, _, (Endpoint.played (fun _ _ _ => True) accepted [.input [1, 0, 0, 0, 65],
    .input [1, 0, 0, 0, 66], .returned, .returned, .returned]).reaches, by decide +kernel,
    by decide +kernel, by decide +kernel, by decide +kernel,
    fun exact' => absurd exact'.ordered (by decide +kernel)⟩

end PBus.Connection
