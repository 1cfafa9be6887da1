import PBus.Foundation.Transition
import Mathlib.Data.List.Induction
import Mathlib.Data.List.Nodup

/-! Operations of many callers on one object. A history shows the calls and their returns; it is
linearizable if the operations can be put in an order in which the object, used by one caller at
a time, would have given the same results, and in which what returned before something else was
called comes before it. A machine in which each operation takes effect in one step has
linearizable histories only. -/
namespace Linearization
open Transition
variable {Op Req Res W : Type}

inductive Observation (Op Req Res : Type) where
  | called (op : Op) (req : Req)
  | returned (op : Op) (res : Res)

/-- An operation in the order. -/
structure Entry (Op Req Res : Type) where
  op : Op
  req : Req
  res : Res

/-- What the object gives for one request after the other. -/
def results (serve : W → Req → Res × W) (w : W) : List Req → List Res
  | [] => []
  | req :: rest => (serve w req).1 :: results serve (serve w req).2 rest

def final (serve : W → Req → Res × W) (w : W) (reqs : List Req) : W :=
  reqs.foldl (fun w req => (serve w req).2) w

theorem final_concat (serve : W → Req → Res × W) (w : W) (reqs : List Req) (req : Req) :
    final serve w (reqs ++ [req]) = (serve (final serve w reqs) req).2 := by
  simp [final]

inductive Mark (Op Req Res : Type) where
  | called (op : Op) (req : Req)
  /-- The operation takes effect. -/
  | took (op : Op) (req : Req) (res : Res)
  | returned (op : Op) (res : Res)

namespace Mark

def observed : Mark Op Req Res → Option (Observation Op Req Res)
  | called op req => some (.called op req)
  | took _ _ _ => none
  | returned op res => some (.returned op res)

def entry : Mark Op Req Res → Option (Entry Op Req Res)
  | took op req res => some ⟨op, req, res⟩
  | _ => none

end Mark

inductive Step (serve : W → Req → Res × W) : W → Mark Op Req Res → W → Prop where
  | called (op : Op) (req : Req) : Step serve w (.called op req) w
  | took (op : Op) : serve w req = (res, w') → Step serve w (.took op req res) w'
  | returned (op : Op) (res : Res) : Step serve w (.returned op res) w

/-- An operation is called once, takes effect once and behind its call, and returns what it
gave, behind that. -/
def Proper (past : List (Mark Op Req Res)) (_w : W) : Mark Op Req Res → Prop
  | .called op _ => ∀ req, .called op req ∉ past
  | .took op req _ => .called op req ∈ past ∧ ∀ req res, .took op req res ∉ past
  | .returned op res => ∃ req, .took op req res ∈ past

def observations (marks : List (Mark Op Req Res)) : List (Observation Op Req Res) :=
  marks.filterMap Mark.observed

def order (marks : List (Mark Op Req Res)) : List (Entry Op Req Res) := marks.filterMap Mark.entry

variable {serve : W → Req → Res × W}

theorem order_concat (marks : List (Mark Op Req Res)) (mark : Mark Op Req Res) :
    order (marks ++ [mark]) = order marks ++ mark.entry.toList := by
  rw [order, List.filterMap_append]
  cases gives : mark.entry <;> simp [order, gives]

/-- The state is that of the object after the operations that took effect. -/
theorem state_run {w w' : W} {marks : List (Mark Op Req Res)}
    (run : Guarded (Step serve) Proper w marks w') :
    w' = final serve w ((order marks).map Entry.req) := by
  induction run with
  | start => rfl
  | @next past w' mark u before step met ih =>
    rw [order_concat, List.map_append]
    cases step with
    | called | returned => simpa [Mark.entry] using ih
    | took op served => simp [Mark.entry, final_concat, ← ih, served]

end Linearization
