import PBus.Connection.Endpoint

/-! Reading without nested input: the invariant of the input loop. The frames handed over
and what the half-read frame holds are exactly the bytes read, whatever the cuts were. -/
namespace PBus.Connection
variable {β : Type} [Cell β]

/-- Of the bytes read, the frames `us` have been handed over. Between events the rest is in
the half-read frame; during a handler the last frame is still there, and the rest of the
bytes is the suspended part of the buffer. -/
structure Decoding (us : List (List β)) (bytes : List β) (e : Endpoint β) : Prop where
  whole : ∀ u ∈ us, Delimited.Whole (frames β) u
  idle : e.stack = [] → e.conn.readTask.finished = false ∧
    bytes = us.flatten ++ e.conn.readTask.pending
  busy : ∀ a below, e.stack = a :: below → below = [] ∧ e.conn.readTask.finished = true ∧
    us.getLast? = some e.conn.readTask.pending ∧ bytes = us.flatten ++ a.rest

namespace Decoding

def handedBy (dispatch : Option (Dispatch β)) : List (List β) :=
  dispatch.toList.map fun d => d.frame

theorem numberedFrom_dispatch {n : UInt32} {us : List (List β)} {dispatch : Option (Dispatch β)}
    (serial : ∀ d ∈ dispatch, d.serial = n + UInt32.ofNat us.length) :
    numberedFrom n us ++ dispatch.toList.map (fun d => (d.serial, d.frame)) =
      numberedFrom n (us ++ handedBy dispatch) := by
  cases dispatch with
  | none => simp [handedBy]
  | some d => simp [handedBy, numberedFrom_concat, serial d rfl]

theorem ofNat_dispatch (us : List (List β)) (dispatch : Option (Dispatch β)) :
    UInt32.ofNat us.length + UInt32.ofNat dispatch.toList.length =
      UInt32.ofNat (us ++ handedBy dispatch).length := by
  simp [handedBy]

theorem fresh (e : Endpoint β) (idle : e.stack = []) (empty : e.conn.readTask.pending = [])
    (unfinished : e.conn.readTask.finished = false) : Decoding [] [] e where
  whole := by simp
  idle _ := ⟨unfinished, by simp [empty]⟩
  busy a below h := by simp [idle] at h

theorem loop {e e' : Endpoint β} {dispatch : Option (Dispatch β)}
    (whole : ∀ u ∈ us, Delimited.Whole (frames β) u) (outermost : e.stack = [])
    (unfinished : e.conn.readTask.finished = false)
    (taken : e.loop socket data = (e', dispatch)) :
    Decoding (us ++ handedBy dispatch) (us.flatten ++ e.conn.readTask.pending ++ data) e' ∧
      (∀ d ∈ dispatch, d.serial = e.conn.readSerial ∧ d.socket = socket) ∧
      e'.conn.readSerial = e.conn.readSerial + UInt32.ofNat dispatch.toList.length := by
  have scanned := e.conn.scan_spec socket data unfinished
  unfold Endpoint.loop at taken
  cases result : e.conn.scan socket data with
  | mk conn outcome =>
    rw [result] at scanned taken
    cases scanned with
    | through task unfinished pending =>
      obtain ⟨rfl, rfl⟩ := Prod.mk.inj taken
      refine ⟨?_, by simp, by simp⟩
      constructor
      case whole => simpa [handedBy] using whole
      case idle => exact fun _ => ⟨unfinished, by simp [handedBy, pending]⟩
      case busy =>
        intro a below h
        simp [outermost] at h
    | stopped task rest finished pending =>
      obtain ⟨rfl, rfl⟩ := Prod.mk.inj taken
      refine ⟨?_, by simp, by simp⟩
      constructor
      case whole =>
        intro u hu
        rcases List.mem_append.mp hu with hu | hu
        · exact whole u hu
        · obtain rfl : u = task.pending := by simpa [handedBy, Dispatch.frame] using hu
          exact task.pending_whole finished
      case idle =>
        intro h
        simp at h
      case busy =>
        intro a below h
        obtain ⟨rfl, rfl⟩ := List.cons.inj h
        refine ⟨outermost, finished, by simp [handedBy, Dispatch.frame], ?_⟩
        simp [handedBy, Dispatch.frame, ← pending]

theorem read {e e' : Endpoint β} {dispatch : Option (Dispatch β)} (d : Decoding us bytes e)
    (outermost : e.stack = []) (taken : e.loop socket data = (e', dispatch)) :
    Decoding (us ++ handedBy dispatch) (bytes ++ data) e' ∧
      (∀ d ∈ dispatch, d.serial = e.conn.readSerial ∧ d.socket = socket) ∧
      e'.conn.readSerial = e.conn.readSerial + UInt32.ofNat dispatch.toList.length := by
  obtain ⟨unfinished, rfl⟩ := d.idle outermost
  exact loop d.whole outermost unfinished taken

theorem handled {e e' : Endpoint β} {dispatch : Option (Dispatch β)} (d : Decoding us bytes e)
    (stack : e.stack = a :: below) (taken : e.handled = some (e', dispatch)) :
    Decoding (us ++ handedBy dispatch) bytes e' ∧
      (∀ d ∈ dispatch, d.serial = e.conn.readSerial ∧ d.socket = a.socket) ∧
      e'.conn.readSerial = e.conn.readSerial + UInt32.ofNat dispatch.toList.length := by
  obtain ⟨rfl, _, _, rfl⟩ := d.busy a below stack
  simp only [Endpoint.handled, stack, Option.some.injEq] at taken
  simpa [LocalBusConnection.resetRead] using loop d.whole rfl rfl taken

theorem frame {e e' : Endpoint β} (d : Decoding us bytes e)
    (task : e'.conn.readTask = e.conn.readTask) (stack : e'.stack = e.stack) :
    Decoding us bytes e' where
  whole := d.whole
  idle h := by rw [task]; exact d.idle (stack ▸ h)
  busy a below h := by rw [task]; exact d.busy a below (stack ▸ h)

/-- The frames handed over come first among the frames of the bytes read, and between
events they are all of them. -/
theorem parse_eq {e : Endpoint β} (d : Decoding us bytes e) :
    us <+: (Delimited.parse (frames β) bytes).1 ∧
      (e.stack = [] → (Delimited.parse (frames β) bytes).1 = us) := by
  cases stack : e.stack with
  | nil =>
    obtain ⟨unfinished, rfl⟩ := d.idle stack
    rw [Delimited.parse_eq d.whole (ReadTask.pending_unfinished _ unfinished)]
    exact ⟨List.prefix_refl _, fun _ => rfl⟩
  | cons a below =>
    obtain ⟨_, _, _, rfl⟩ := d.busy a below stack
    rw [Delimited.parse_units d.whole]
    exact ⟨List.prefix_append _ _, by simp⟩

end Decoding
end PBus.Connection
