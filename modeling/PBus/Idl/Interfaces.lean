import PBus.Session.Requests
import Mathlib.Data.List.Nodup

/-! What the IDL compiler generates for a chain of interfaces: the methods of the proxies, which
make requests, and `__pbus__invoke`, which takes them apart and calls the object. -/
namespace PBus
open Session Flat

/-- `void` among the types a method can return. What is written for it is the toolkit's
`Undefined`. -/
structure IdlTypes (tk : Toolkit) where
  void : tk.Ty
  undefined : tk.Val void
  only : ∀ value : tk.Val void, value = undefined

namespace Idl
variable {tk : Toolkit}

/-- The type of an argument, decayed. -/
inductive ArgType (types : IdlTypes tk) where
  | string
  | scalar (ty : tk.Ty) (notVoid : ty ≠ types.void)

variable {types : IdlTypes tk}

def ArgType.Val : ArgType types → Type
  | .string => Str
  | .scalar ty _ => tk.Val ty

def ArgType.codec : (t : ArgType types) → Codec UInt8 Str t.Val
  | .string => tk.string
  | .scalar ty _ => tk.value ty

def Arguments : List (ArgType types) → Type
  | [] => Unit
  | t :: ts => t.Val × Arguments ts

variable (types) in
structure Method where
  name : Str
  args : List (ArgType types)
  rtype : tk.Ty

variable (types) in
/-- One interface of the IDL. The generated code declares a `MethodId` for each name. -/
structure Interface where
  name : Str
  methods : List (Method types)
  distinct : (methods.map Method.name).Nodup

variable (types) in
/-- A call of a method of the object. -/
structure Call where
  method : Method types
  arguments : Arguments method.args

variable (types) in
/-- The object behind the interfaces: what its methods return or throw. -/
abbrev Object (σ : Type) :=
  (c : Call types) → σ → Except Str (tk.Val c.method.rtype) × σ

/-- The outcome of `__pbus__invoke`, with the calls it made and what it serialized. -/
structure Invoked (types : IdlTypes tk) (σ : Type) where
  calls : List (Call types)
  written : List UInt8
  outcome : Except Str Unit
  state : σ

/-- `auto argN = ReadSingleValue<...>(argsData, offset)`, for one argument after the other. -/
def readArguments : (ts : List (ArgType types)) → List UInt8 → Nat → Except Str (Arguments ts × Nat)
  | [], _, offset => .ok ((), offset)
  | t :: ts, argsData, offset => do
    let (arg, offset) ← t.codec.readAt argsData offset
    let (rest, offset) ← readArguments ts argsData offset
    return ((arg, rest), offset)

def call {σ : Type} (object : Object types σ) (c : Call types) (s : σ) : Invoked types σ :=
  match object c s with
  | (.error text, s) => ⟨[c], [], .error text, s⟩
  | (.ok value, s) =>
    ⟨[c],
      if c.method.rtype = types.void then (tk.value types.void).write types.undefined
      else (tk.value c.method.rtype).write value,
      .ok (), s⟩

/-- What a stub does for the method `m`. -/
def perform {σ : Type} (object : Object types σ) (m : Method types) (argsData : List UInt8)
    (s : σ) : Invoked types σ :=
  match readArguments m.args argsData 0 with
  | .error text => ⟨[], [], .error text, s⟩
  | .ok (arguments, _offset) => call object ⟨m, arguments⟩ s

/-- The `if` of a stub for one method, `otherwise` being what stands behind its `else`. -/
def tryMethod {σ : Type} (object : Object types σ) (m : Method types)
    (otherwise : Str → List UInt8 → σ → Invoked types σ) (method : Str) (argsData : List UInt8)
    (s : σ) : Invoked types σ :=
  if method = m.name then perform object m argsData s else otherwise method argsData s

/-- `ICoreObject::__pbus__invoke`. -/
def coreInvoke {σ : Type} (method : Str) (_argsData : List UInt8) (s : σ) : Invoked types σ :=
  ⟨[], [], .error ("invoking unknown method ".toList ++ method), s⟩

/-- `__pbus__invoke` of an interface with these methods; `base` is that of its base. -/
def stub {σ : Type} (object : Object types σ) (base : Str → List UInt8 → σ → Invoked types σ)
    (methods : List (Method types)) : Str → List UInt8 → σ → Invoked types σ :=
  methods.foldr (tryMethod object) base

/-- `__pbus__invoke` of the first of these interfaces, each of which extends the next. -/
def invoke {σ : Type} (object : Object types σ) (chain : List (Interface types)) :
    Str → List UInt8 → σ → Invoked types σ :=
  chain.foldr (fun i base => stub object base i.methods) coreInvoke

def writeArguments : (ts : List (ArgType types)) → Arguments ts → List UInt8
  | [], () => []
  | t :: ts, (arg, rest) => t.codec.write arg ++ writeArguments ts rest

/-- What the generated method of a proxy with this identifier sends. -/
def proxyPayload (id : ObjectId) (c : Call types) : List UInt8 :=
  invokePayload tk id c.method.name (writeArguments c.method.args c.arguments)

def proxyParser (m : Method types) : ResponseParser tk := .new m.rtype

/-- No interface that extends the one with this method has another of its name. -/
def Nearest (chain : List (Interface types)) (m : Method types) : Prop :=
  ∃ derived i bases, chain = derived ++ i :: bases ∧ m ∈ i.methods ∧
    ∀ j ∈ derived, ∀ n ∈ j.methods, n.name ≠ m.name

def Declares (chain : List (Interface types)) (name : Str) : Prop :=
  ∃ i ∈ chain, ∃ m ∈ i.methods, m.name = name

/-- A request the proxy makes reaches the object as the same call, and what the object returns
comes back. -/
structure Agrees {σ : Type} (object : Object types σ) (chain : List (Interface types))
    (id : ObjectId) (c : Call types) (s : σ) : Prop where
  carried : ∃ data, request tk (proxyPayload id c) = .ok (.invoke data) ∧
    readInvocation tk data = (ClassId.new id.type.name id.type.version).map fun type =>
      ⟨⟨type, id.id⟩, c.method.name, writeArguments c.method.args c.arguments⟩
  called : ∃ written,
    invoke object chain c.method.name (writeArguments c.method.args c.arguments) s =
      ⟨[c], written, (object c s).1.map fun _ => (), (object c s).2⟩ ∧
    ∀ value, (object c s).1 = .ok value → ∀ serial,
      (proxyParser c.method).reply (resultPayload tk serial written) =
        { proxyParser c.method with value, finished := true }

/-- The call a stub made, if it made one: of the nearest method of the name, with all the
arguments it takes. -/
def Once (chain : List (Interface types)) (method : Str) (argsData : List UInt8)
    (calls : List (Call types)) : Prop :=
  calls = [] ∨ ∃ c offset, calls = [c] ∧ Nearest chain c.method ∧ c.method.name = method ∧
    readArguments c.method.args argsData 0 = .ok (c.arguments, offset)

theorem stub_declared {σ : Type} (object : Object types σ)
    (base : Str → List UInt8 → σ → Invoked types σ) {methods : List (Method types)}
    {m : Method types} (member : m ∈ methods) (distinct : (methods.map Method.name).Nodup) :
    stub object base methods m.name = perform object m := by
  induction methods with
  | nil => cases member
  | cons first rest ih =>
    obtain ⟨fresh, distinct⟩ := List.nodup_cons.mp distinct
    funext argsData s
    rcases List.mem_cons.mp member with rfl | member
    · simp [stub, tryMethod]
    · have other : m.name ≠ first.name := fun same => fresh (same ▸ List.mem_map_of_mem member)
      simp only [stub, List.foldr_cons, tryMethod, if_neg other]
      exact congrFun (congrFun (ih member distinct) argsData) s

theorem stub_undeclared {σ : Type} (object : Object types σ)
    (base : Str → List UInt8 → σ → Invoked types σ) {methods : List (Method types)} {name : Str}
    (undeclared : ∀ n ∈ methods, n.name ≠ name) :
    stub object base methods name = base name := by
  induction methods with
  | nil => rfl
  | cons first rest ih =>
    have other : name ≠ first.name := fun same => undeclared first List.mem_cons_self same.symm
    funext argsData s
    simp only [stub, List.foldr_cons, tryMethod, if_neg other]
    exact congrFun (congrFun (ih fun n hn => undeclared n (List.mem_cons_of_mem _ hn)) argsData) s

theorem nearest_cons {i : Interface types} {bases : List (Interface types)} {m : Method types} :
    Nearest (i :: bases) m ↔
      m ∈ i.methods ∨ (∀ n ∈ i.methods, n.name ≠ m.name) ∧ Nearest bases m := by
  constructor
  · rintro ⟨derived, j, below, split, member, others⟩
    cases derived with
    | nil =>
      obtain ⟨rfl, rfl⟩ := List.cons.inj split
      exact .inl member
    | cons k derived =>
      obtain ⟨rfl, rfl⟩ := List.cons.inj split
      exact .inr ⟨others i List.mem_cons_self, derived, j, below, rfl, member,
        fun k hk => others k (List.mem_cons_of_mem _ hk)⟩
  · rintro (member | ⟨other, derived, j, below, rfl, member, others⟩)
    · exact ⟨[], i, bases, rfl, member, by simp⟩
    · exact ⟨i :: derived, j, below, rfl, member, List.forall_mem_cons.mpr ⟨other, others⟩⟩

theorem not_nearest_nil (m : Method types) : ¬ Nearest [] m := by
  rintro ⟨derived, i, bases, empty, -⟩
  simp at empty

/-- The stubs of the derived interfaces fall through to the nearest declaration. -/
theorem invoke_nearest {σ : Type} (object : Object types σ) {chain : List (Interface types)}
    {m : Method types} (nearest : Nearest chain m) :
    invoke object chain m.name = perform object m := by
  induction chain with
  | nil => exact absurd nearest (not_nearest_nil m)
  | cons i bases ih =>
    rw [invoke, List.foldr_cons]
    rcases nearest_cons.mp nearest with member | ⟨others, nearest⟩
    · exact stub_declared object _ member i.distinct
    · rw [stub_undeclared object _ others]
      exact ih nearest

theorem invoke_undeclared {σ : Type} (object : Object types σ) {chain : List (Interface types)}
    {name : Str} (undeclared : ¬ Declares chain name) :
    invoke object chain name = coreInvoke name := by
  induction chain with
  | nil => rfl
  | cons i bases ih =>
    rw [invoke, List.foldr_cons, stub_undeclared object _ fun n hn same =>
      undeclared ⟨i, List.mem_cons_self, n, hn, same⟩]
    exact ih fun ⟨j, hj, n, hn, same⟩ => undeclared ⟨j, List.mem_cons_of_mem _ hj, n, hn, same⟩

theorem declares_nearest {chain : List (Interface types)} {name : Str}
    (declared : Declares chain name) : ∃ m, Nearest chain m ∧ m.name = name := by
  induction chain with
  | nil =>
    obtain ⟨i, hi, -⟩ := declared
    cases hi
  | cons i bases ih =>
    by_cases here : ∃ m ∈ i.methods, m.name = name
    · obtain ⟨m, member, named⟩ := here
      exact ⟨m, nearest_cons.mpr (.inl member), named⟩
    · obtain ⟨j, hj, n, hn, named⟩ := declared
      rcases List.mem_cons.mp hj with rfl | hj
      · exact absurd ⟨n, hn, named⟩ here
      · obtain ⟨m, nearest, rfl⟩ := ih ⟨j, hj, n, hn, named⟩
        exact ⟨m, nearest_cons.mpr (.inr ⟨fun n hn same => here ⟨n, hn, same⟩, nearest⟩), rfl⟩

theorem Nearest.unique {chain : List (Interface types)} {m n : Method types}
    (first : Nearest chain m) (second : Nearest chain n) (same : m.name = n.name) : m = n := by
  induction chain with
  | nil => exact absurd first (not_nearest_nil m)
  | cons i bases ih =>
    rcases nearest_cons.mp first with here | ⟨others, first⟩
    · rcases nearest_cons.mp second with here' | ⟨others, -⟩
      · exact List.inj_on_of_nodup_map i.distinct here here' same
      · exact absurd same (others m here)
    · rcases nearest_cons.mp second with here' | ⟨-, second⟩
      · exact absurd same.symm (others n here')
      · exact ih first second

theorem ArgType.codec_lawful (lawful : tk.Lawful) (t : ArgType types) : t.codec.Lawful := by
  cases t with
  | string => exact lawful.string
  | scalar ty notVoid => exact lawful.value ty

theorem readArguments_write (lawful : tk.Lawful) {ts : List (ArgType types)}
    (arguments : Arguments ts) {data rest : List UInt8} {offset : Nat}
    (next : data.drop offset = writeArguments ts arguments ++ rest) :
    ∃ behind, readArguments ts data offset = .ok (arguments, behind) := by
  induction ts generalizing offset with
  | nil => exact ⟨offset, rfl⟩
  | cons t ts ih =>
    obtain ⟨arg, arguments⟩ := arguments
    rw [writeArguments, List.append_assoc] at next
    obtain ⟨behind, others⟩ := ih arguments (drop_written next)
    refine ⟨behind, ?_⟩
    simp only [readArguments, bind, Except.bind,
      Codec.readAt_write (t.codec_lawful lawful) next, others]
    rfl

/-- What the stub serialized is what the parser of the proxy makes a value of. -/
theorem call_returned (lawful : tk.Lawful) {σ : Type} (object : Object types σ) (c : Call types)
    (s : σ) {value : tk.Val c.method.rtype} (returned : (object c s).1 = .ok value)
    (serial : UInt32) :
    (proxyParser c.method).reply (resultPayload tk serial (call object c s).written) =
      { proxyParser c.method with value, finished := true } := by
  have written : (call object c s).written = (tk.value c.method.rtype).write value := by
    obtain ⟨⟨name, args, rtype⟩, arguments⟩ := c
    unfold call
    split
    · rename_i text s' threw
      simp [threw] at returned
    · rename_i value' s' done
      obtain rfl : value' = value := Except.ok.inj (by rw [← returned, done])
      by_cases isVoid : rtype = types.void
      · subst isVoid
        simp only [if_true, types.only value']
      · simp only [if_neg isVoid]
  rw [written]
  exact (proxyParser c.method).reply_result lawful serial value

/-- A proxy and the stub of the most derived interface agree on the call. -/
theorem agrees (lawful : tk.Lawful) {σ : Type} (object : Object types σ)
    {chain : List (Interface types)} (id : ObjectId) {c : Call types}
    (nearest : Nearest chain c.method) (s : σ) : Agrees object chain id c s := by
  constructor
  case carried =>
    exact ⟨_, request_invoke lawful id c.method.name _, readInvocation_write lawful id _ _⟩
  case called =>
    have next : (writeArguments c.method.args c.arguments).drop 0 =
        writeArguments c.method.args c.arguments ++ [] := by simp
    obtain ⟨behind, read⟩ := readArguments_write lawful c.arguments next
    refine ⟨(call object c s).written, ?_, fun value => call_returned lawful object c s⟩
    simp only [invoke_nearest object nearest, perform, read]
    unfold call
    split <;> rename_i done <;> rw [done] <;> rfl

theorem once {σ : Type} (object : Object types σ) (chain : List (Interface types)) (method : Str)
    (argsData : List UInt8) (s : σ) :
    Once chain method argsData (invoke object chain method argsData s).calls := by
  by_cases declared : Declares chain method
  · obtain ⟨m, nearest, rfl⟩ := declares_nearest declared
    rw [invoke_nearest object nearest, perform]
    cases read : readArguments m.args argsData 0 with
    | error text => exact .inl rfl
    | ok pair =>
      obtain ⟨arguments, offset⟩ := pair
      refine .inr ⟨⟨m, arguments⟩, offset, ?_, nearest, rfl, read⟩
      simp only [call]
      split <;> rfl
  · rw [invoke_undeclared object declared]
    exact .inl rfl

end Idl
open Idl

/-- For a name that is declared, the nearest declaration is the one whose proxy and the stub of
the most derived interface agree; whatever arrives, no method is called but that one, once and
with all its arguments; and for a name that is not declared, none is. -/
theorem proxy_stub_agree {tk : Toolkit} (lawful : tk.Lawful) {types : IdlTypes tk} {σ : Type}
    (object : Object types σ) (chain : List (Interface types)) :
    (∀ name, Declares chain name → ∃! m, Nearest chain m ∧ m.name = name) ∧
    (∀ c : Call types, Nearest chain c.method → ∀ id s, Agrees object chain id c s) ∧
    (∀ method argsData s,
      Once chain method argsData (invoke object chain method argsData s).calls) ∧
    ∀ name, ¬ Declares chain name → ∀ argsData s, invoke object chain name argsData s =
      ⟨[], [], .error ("invoking unknown method ".toList ++ name), s⟩ := by
  refine ⟨fun name declared => ?_, fun c nearest id s => agrees lawful object id nearest s,
    once object chain, fun name undeclared argsData s => ?_⟩
  · obtain ⟨m, nearest, named⟩ := declares_nearest declared
    refine ⟨m, ⟨nearest, named⟩, ?_⟩
    rintro n ⟨other, same⟩
    exact other.unique nearest (same.trans named.symm)
  · rw [invoke_undeclared object undeclared]
    rfl

def plainTypes : IdlTypes .plain where
  void := false
  undefined := ()
  only _ := rfl

def number : ArgType plainTypes := .scalar true (show true ≠ false by decide)

/-- `set` with a number, in a base interface. -/
def setNumber : Method plainTypes := ⟨"set".toList, [number], true⟩

/-- `set` with a text and a number, in an interface that extends it. -/
def setText : Method plainTypes := ⟨"set".toList, [.string, number], false⟩

def settings : List (Interface plainTypes) :=
  [⟨"a.Derived".toList, [setText], by decide⟩, ⟨"a.Base".toList, [setNumber], by decide⟩]

/-- An object whose methods all return the initial value. -/
def initialObject : Object plainTypes Unit :=
  fun c s => (.ok (Toolkit.plain.initial c.method.rtype), s)

def setSeven : Call plainTypes := ⟨setText, "x".toList, (7 : UInt32), ()⟩

/-- A name that occurs at both levels means the method of the derived interface, and another
name none. -/
theorem proxy_stub_agree_settings :
    Agrees initialObject settings ⟨⟨"a.Derived".toList, 1⟩, 0⟩ setSeven () ∧
    invoke initialObject settings "get".toList [] () =
      ⟨[], [], .error "invoking unknown method get".toList, ()⟩ := by
  have agree := proxy_stub_agree Toolkit.plain_lawful initialObject settings
  have nearest : Nearest settings setText := ⟨[], _, _, rfl, List.mem_cons_self, by simp⟩
  refine ⟨agree.2.1 setSeven nearest _ (), agree.2.2.2 _ ?_ [] ()⟩
  rintro ⟨i, hi, m, hm, named⟩
  simp only [settings, List.mem_cons, List.not_mem_nil, or_false] at hi
  rcases hi with rfl | rfl <;> obtain rfl := List.mem_singleton.mp hm <;> revert named <;> decide

end PBus
