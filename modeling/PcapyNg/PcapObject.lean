import PcapyNg.Libpcap

/-!
# The Reader object and its callback loops

A method either returns a value or NULL, and leaves an exception pending or not; the two
are kept apart, since nothing but the code ties them together.
-/

namespace PcapyNg
open ReadLoop
set_option autoImplicit false

inductive PyExc where
  | valueError (text : String)
  | typeError (text : String)
  | pcapError (text : String)
  | bpfError (text : String)
  | memoryError
  | user (name : String)
  deriving DecidableEq

/-- What a method hands back to the interpreter; `none` is NULL. -/
structure PyOutcome (α : Type) where
  value : Option α
  pending : Option PyExc
  deriving DecidableEq

def PyOutcome.ret {α : Type} (a : α) : PyOutcome α := ⟨some a, none⟩

def PyOutcome.raise {α : Type} (e : PyExc) : PyOutcome α := ⟨none, some e⟩

/-- Arguments of a callback: the header object, the packet bytes, the class id if there is one. -/
structure CallArgs where
  hdr : PcapPkthdr
  data : Bytes
  cls : Option Int
  deriving DecidableEq

/-- A callable, which may know the calls made before: the exception it raises, or none. -/
abbrev PyFunc := List CallArgs → CallArgs → Option PyExc

@[ext] structure Interp where
  calls : List CallArgs := []
  err : Option PyExc := none
  deriving DecidableEq

/-- `PyObject_CallObject`, and whether it gave NULL. -/
def Interp.callObject (f : PyFunc) (py : Interp) (args : CallArgs) : Interp × Bool :=
  match f py.calls args with
  | none => (⟨py.calls ++ [args], py.err⟩, false)
  | some e => (⟨py.calls ++ [args], some e⟩, true)

/-- The first exception `f` raises when called with `ds` in order, after `before`. -/
def firstRaise (f : PyFunc) : List CallArgs → List CallArgs → Option PyExc
  | _, [] => none
  | before, d :: ds =>
    match f before d with
    | some e => some e
    | none => firstRaise f (before ++ [d]) ds

def Interp.callAll (f : PyFunc) (py : Interp) (ds : List CallArgs) : Interp :=
  ds.foldl (fun py d => (py.callObject f d).1) py

/-- `pcapobject`; `pcap` is NULL once closed. -/
structure PcapObject where
  pcap : Option Capture
  filtCounts : List UInt64 := List.replicate 8 0
  filtProfile : Int32 := 0
  deriving DecidableEq

def errClosed : PyExc := .valueError "pcap is closed"

def pythonCallBack (f : PyFunc) : Handler Interp Record := fun py r =>
  py.callObject f ⟨r.hdr, r.data, none⟩

/-- `if (ret < 0) { if (ret != -2) PyErr_SetString(..); return NULL; }`, else the value. -/
def loopOutcome {α : Type} (errbuf : String) (ret : Int) (err : Option PyExc) (a : α) :
    PyOutcome α :=
  if ret < 0 then
    if ret ≠ -2 then .raise (.pcapError errbuf) else ⟨none, err⟩
  else ⟨some a, err⟩

/-- The same after `if (PyErr_Occurred()) return NULL;`. -/
def checkedOutcome {α : Type} (errbuf : String) (ret : Int) (err : Option PyExc) (a : α) :
    PyOutcome α :=
  if err.isSome then ⟨none, err⟩ else loopOutcome errbuf ret err a

def pDispatch (lib : Libpcap) (pp : PcapObject) (cant : Int32) (f : PyFunc) :
    PyOutcome Int × PcapObject × List CallArgs :=
  match pp.pcap with
  | none => (.raise errClosed, pp, [])
  | some c =>
    let (ret, c, py) := lib.dispatch (pythonCallBack f) cant.toInt c {}
    (checkedOutcome (lib.geterr c) ret py.err ret, { pp with pcap := some c }, py.calls)

/-- `p_loop`, which does not ask for a pending exception when the loop is over. -/
def pLoop (lib : Libpcap) (pp : PcapObject) (cant : Int32) (f : PyFunc) :
    PyOutcome Unit × PcapObject × List CallArgs :=
  match pp.pcap with
  | none => (.raise errClosed, pp, [])
  | some c =>
    let (ret, c, py) := lib.loop (pythonCallBack f) cant.toInt c {}
    (loopOutcome (lib.geterr c) ret py.err (), { pp with pcap := some c }, py.calls)

/-- `p_next`; the header is None at the end of the file. -/
def pNext (lib : Libpcap) (pp : PcapObject) :
    PyOutcome (Option PcapPkthdr × Bytes) × PcapObject :=
  match pp.pcap with
  | none => (.raise errClosed, pp)
  | some c =>
    let (errCode, hdr, c) := lib.nextEx c
    let pp := { pp with pcap := some c }
    if errCode = -1 then (.raise (.pcapError (lib.geterr c)), pp)
    else
      match hdr with
      | some r => if errCode = 1 then (.ret (some r.hdr, r.data), pp) else (.ret (none, []), pp)
      | none => (.ret (none, []), pp)

section Next
variable (lib : Libpcap) {pp : PcapObject} {rs : List Record} {e : Ending}

theorem pNext_record {r : Record} (hpcap : pp.pcap = some ⟨r :: rs, e, false⟩) :
    pNext lib pp = (.ret (some r.hdr, r.data), { pp with pcap := some ⟨rs, e, false⟩ }) := by
  rw [pNext, hpcap]
  simp only [lib.nextEx_record]
  rfl

theorem pNext_eof (hpcap : pp.pcap = some ⟨[], .eof, false⟩) :
    pNext lib pp = (.ret (none, []), { pp with pcap := some ⟨[], .eof, false⟩ }) := by
  rw [pNext, hpcap]
  simp only [lib.nextEx_eof]
  rfl

theorem pNext_error (hpcap : pp.pcap = some ⟨[], .error, false⟩) :
    pNext lib pp = (.raise (.pcapError (lib.geterr ⟨[], .error, false⟩)),
      { pp with pcap := some ⟨[], .error, false⟩ }) := by
  rw [pNext, hpcap]
  simp only [lib.nextEx_error]
  rfl

theorem pNext_broken (hpcap : pp.pcap = some ⟨rs, e, true⟩) :
    pNext lib pp = (.ret (none, []), { pp with pcap := some ⟨rs, e, false⟩ }) := by
  rw [pNext, hpcap]
  simp only [lib.nextEx_broken]
  rfl

end Next

/-! Calling in order. -/

section Calls
variable {f : PyFunc}

theorem firstRaise_append (before xs ys : List CallArgs) :
    firstRaise f before (xs ++ ys) =
      (firstRaise f before xs).or (firstRaise f (before ++ xs) ys) := by
  induction xs generalizing before with
  | nil => simp [firstRaise]
  | cons x xs ih =>
    rw [List.cons_append, firstRaise, firstRaise]
    cases f before x with
    | some e => rfl
    | none => simpa using ih (before ++ [x])

theorem firstRaise_singleton (before : List CallArgs) (d : CallArgs) :
    firstRaise f before [d] = f before d := by
  rw [firstRaise]
  cases f before d <;> rfl

theorem firstRaise_of_never (hf : ∀ before d, f before d = none) (before ds : List CallArgs) :
    firstRaise f before ds = none := by
  induction ds generalizing before with
  | nil => rfl
  | cons d ds ih =>
    rw [firstRaise, hf]
    exact ih _

theorem Interp.callObject_calls (py : Interp) (d : CallArgs) :
    (py.callObject f d).1.calls = py.calls ++ [d] := by
  rw [Interp.callObject]
  split <;> rfl

theorem Interp.callObject_raised (py : Interp) (d : CallArgs) :
    (py.callObject f d).2 = (f py.calls d).isSome := by
  rw [Interp.callObject]
  split <;> simp [*]

theorem Interp.callObject_err (py : Interp) (d : CallArgs) :
    (py.callObject f d).1.err = (f py.calls d).or py.err := by
  rw [Interp.callObject]
  split <;> simp [*]

theorem Interp.callAll_append (py : Interp) (xs ys : List CallArgs) :
    py.callAll f (xs ++ ys) = (py.callAll f xs).callAll f ys := List.foldl_append

theorem Interp.callAll_calls (py : Interp) (ds : List CallArgs) :
    (py.callAll f ds).calls = py.calls ++ ds := by
  induction ds generalizing py with
  | nil => simp [Interp.callAll]
  | cons d ds ih =>
    rw [Interp.callAll, List.foldl_cons, ← Interp.callAll, ih, Interp.callObject_calls,
      List.append_assoc, List.singleton_append]

theorem Interp.callAll_err (py : Interp) {ds : List CallArgs} (h : firstRaise f py.calls ds = none) :
    (py.callAll f ds).err = py.err := by
  induction ds generalizing py with
  | nil => rfl
  | cons d ds ih =>
    rw [firstRaise] at h
    cases hd : f py.calls d with
    | some e =>
      rw [hd] at h
      cases h
    | none =>
      rw [hd] at h
      rw [Interp.callAll, List.foldl_cons, ← Interp.callAll, ih, Interp.callObject_err, hd]
      · rfl
      · rwa [Interp.callObject_calls]

theorem Interp.callAll_snoc_err (py : Interp) {pre : List CallArgs} {d : CallArgs}
    (h : firstRaise f py.calls pre = none) :
    (py.callAll f (pre ++ [d])).err = (f (py.calls ++ pre) d).or py.err := by
  have hlast : (py.callAll f pre).callAll f [d] = ((py.callAll f pre).callObject f d).1 := rfl
  rw [Interp.callAll_append, hlast, Interp.callObject_err, Interp.callAll_calls,
    Interp.callAll_err py h]

theorem Interp.callAll_err_of_raise (py : Interp) {pre ds : List CallArgs} {e : PyExc}
    (hpre : firstRaise f py.calls pre = none) (hds : ds.length ≤ 1)
    (h : firstRaise f py.calls (pre ++ ds) = some e) : (py.callAll f (pre ++ ds)).err = some e := by
  rw [firstRaise_append, hpre, Option.none_or] at h
  match ds with
  | [] => cases h
  | [d] =>
    rw [firstRaise_singleton] at h
    rw [Interp.callAll_snoc_err py hpre, h]
    rfl
  | _ :: _ :: _ => simp at hds

end Calls
end PcapyNg
