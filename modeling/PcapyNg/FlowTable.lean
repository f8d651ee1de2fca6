import PcapyNg.Library.SlotCounter
import PcapyNg.Machine

/-!
# The flow table: `flowtab_build`, `flow_key`, `flow_seen`

One slot per low bits of the key. The slot keeps the full 64-bit key, so two flows of
one slot evict each other, while two flows of one key count as the same flow.
-/

namespace PcapyNg
set_option autoImplicit false

structure FlowTab where
  keys : UInt32 → UInt64
  cnt : UInt32 → UInt32
  mask : UInt32

/-- Which of the three allocations of `flowtab_build` succeed. -/
structure FlowTabAlloc where
  tab : Bool := true
  keys : Bool := true
  cnt : Bool := true
  deriving DecidableEq

def flowtabBuild (alloc : FlowTabAlloc) (bits : UInt32) : Option FlowTab :=
  let cap : UInt32 := 1 <<< bits
  if !alloc.tab then none
  else if !alloc.keys || !alloc.cnt then none
  else some ⟨fun _ => 0, fun _ => 0, cap - 1⟩

/-- `a` of `flow_key`: source and destination address side by side. -/
def packAddrs (sip dip : UInt32) : UInt64 := sip.toUInt64 <<< 32 ||| dip.toUInt64

/-- `b` of `flow_key`: both ports, 16 bits left free, then the protocol. -/
def packPorts (sport dport proto : UInt32) : UInt64 :=
  (sport &&& 0xffff).toUInt64 <<< 48 ||| (dport &&& 0xffff).toUInt64 <<< 32
    ||| (proto &&& 0xff).toUInt64

def flowMix (a : UInt64) : UInt64 :=
  let a := (a ^^^ a >>> 30) * 0xBF58476D1CE4E5B9
  let a := (a ^^^ a >>> 27) * 0x94D049BB133111EB
  a ^^^ a >>> 31

def flowKey (sip dip sport dport proto : UInt32) : UInt64 :=
  flowMix (packAddrs sip dip ^^^ packPorts sport dport proto * 0x9E3779B97F4A7C15)

/-- The count before this packet, and the table after it. -/
def flowSeen (f : FlowTab) (key : UInt64) : UInt32 × FlowTab :=
  let slot := key.toUInt32 &&& f.mask
  let f := if f.keys slot ≠ key then
      { f with keys := Function.update f.keys slot key, cnt := Function.update f.cnt slot 0 }
    else f
  (f.cnt slot, { f with cnt := Function.update f.cnt slot (f.cnt slot + 1) })

theorem flowtabBuild_eq_some {alloc : FlowTabAlloc} {bits : UInt32} {f : FlowTab}
    (h : flowtabBuild alloc bits = some f) : f = ⟨fun _ => 0, fun _ => 0, 1 <<< bits - 1⟩ := by
  simp only [flowtabBuild] at h
  split at h
  · cases h
  · split at h
    · cases h
    · exact (Option.some.inj h).symm

/-! The table is a direct-mapped counter with a 32-bit count. -/

def slotOf (mask : UInt32) (key : UInt64) : UInt32 := key.toUInt32 &&& mask

def FlowTab.slot (f : FlowTab) : UInt64 → UInt32 := slotOf f.mask

def FlowTab.table (f : FlowTab) : SlotCounter.Table UInt32 UInt64 UInt32 := ⟨f.keys, f.cnt⟩

theorem flowSeen_eq_touch (f : FlowTab) (key : UInt64) :
    flowSeen f key =
      let r := SlotCounter.touch f.slot 0 (· + 1) f.table key
      (r.1, ⟨r.2.keys, r.2.cnt, f.mask⟩) := by
  have hslot : key.toUInt32 &&& f.mask = f.slot key := rfl
  simp only [flowSeen, hslot]
  by_cases hkey : f.keys (f.slot key) = key
  · have hupd : Function.update f.keys (f.slot key) key = f.keys := by
      rw [Function.update_eq_self_iff, hkey]
    simp only [SlotCounter.touch, FlowTab.table, hkey, hupd, ne_eq, not_true_eq_false, if_false,
      if_true]
  · simp only [SlotCounter.touch, FlowTab.table, hkey, ne_eq, not_false_eq_true, if_true, if_false,
      Function.update_self, Function.update_idem]

@[simp] theorem flowSeen_mask (f : FlowTab) (key : UInt64) : (flowSeen f key).2.mask = f.mask := by
  rw [flowSeen_eq_touch]

theorem succ_iterate (n : Nat) : (fun c : UInt32 => c + 1)^[n] 0 = UInt32.ofNat n := by
  induction n with
  | zero => rfl
  | succ n ih =>
    rw [Function.iterate_succ_apply', ih]
    apply UInt32.toNat_inj.mp
    simp [UInt32.toNat_add, UInt32.toNat_ofNat']

/-- Counting a packet always changes the table. -/
theorem flowSeen_ne (f : FlowTab) (key : UInt64) : (flowSeen f key).2 ≠ f := by
  intro h
  have hcnt := congrFun (congrArg FlowTab.cnt h) (f.slot key)
  have hkeys := congrFun (congrArg FlowTab.keys h) (f.slot key)
  rw [flowSeen_eq_touch] at hcnt hkeys
  simp only [SlotCounter.touch_cnt_self, SlotCounter.touch_keys_self] at hcnt hkeys
  rw [SlotCounter.touch_fst_of_held f.slot 0 _ (t := f.table) hkeys.symm] at hcnt
  simp [FlowTab.table] at hcnt

/-- The table left behind tells which key was counted. -/
theorem flowSeen_key_injective {f : FlowTab} {key key' : UInt64}
    (h : (flowSeen f key).2 = (flowSeen f key').2) : key = key' := by
  have hkeys := congrFun (congrArg FlowTab.keys h) (f.slot key)
  have hcnt := congrFun (congrArg FlowTab.cnt h) (f.slot key)
  rw [flowSeen_eq_touch, flowSeen_eq_touch] at hkeys hcnt
  simp only [SlotCounter.touch_cnt_self, SlotCounter.touch_keys_self] at hkeys hcnt
  by_cases hslot : f.slot key = f.slot key'
  · rw [hkeys, hslot, SlotCounter.touch_keys_self]
  · -- another slot is counted, so the one of `key` is as it was
    obtain ⟨hk, hc⟩ := SlotCounter.touch_other f.slot 0 (· + 1) f.table hslot
    rw [hk] at hkeys
    rw [hc, SlotCounter.touch_fst_of_held f.slot 0 _ (t := f.table) hkeys.symm] at hcnt
    simp at hcnt

end PcapyNg
