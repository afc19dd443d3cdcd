import Mathlib.Tactic

/-!
# Walks over the capability list

The configuration space of a PCI device holds a list of capabilities, linked by the byte behind
the id of each. `pci_find_capability` follows it for at most 48 links, and `vp_parse_modern_caps`
until a link is zero.

Main results:

- Theorem `capabilityWalks_end_iff`: both walks end exactly if the links come to zero.
- Theorem `selfLinked_never_ends`: a capability that is linked to itself.
-/

namespace LiteKernel.Drivers.Pci

open Function List Option

/-- The bytes of the configuration space of a device. -/
abbrev ConfigSpace := UInt8 → UInt8

/-- `pci_read_config_dword`, which clears the low bits of the offset. -/
def readConfigDword (cfg : ConfigSpace) (offset : UInt8) : UInt32 :=
  let byte i := (cfg ((offset &&& 0xFC) + i)).toUInt32
  byte 0 ||| byte 1 <<< 8 ||| byte 2 <<< 16 ||| byte 3 <<< 24

/-- The link of a capability. -/
def next (cfg : ConfigSpace) (cap : UInt8) : UInt8 :=
  cfg (cap + 1)

/-- The loop of `pci_find_capability`, or `none` if it is still running. -/
def findLoop (cfg : ConfigSpace) (capId : UInt8) : Nat → Nat → UInt8 → Option UInt8
  | 0, _, _ => none
  | fuel + 1, limit, cap =>
    if cap ≠ 0 ∧ limit < 48 then
      if cfg cap = capId then some cap else findLoop cfg capId fuel (limit + 1) (next cfg cap)
    else some 0

def findCapability (cfg : ConfigSpace) (capId : UInt8) (fuel : Nat) : Option UInt8 :=
  findLoop cfg capId fuel 0 (cfg 0x34)

/-- What `vp_parse_modern_caps` sets, and the calls of `ioremap` it has made. -/
structure VirtioPciDevice where
  commonCfg : Option Nat
  isrCfg : Option Nat
  deviceCfg : Option Nat
  deviceCfgLen : UInt32
  notifyBase : Option Nat
  notifyOffMultiplier : UInt32
  modern : Bool
  regions : List (UInt8 × UInt32)

/-- A device and its base address registers; `ioremap` gets the number of earlier calls. -/
structure PciDev where
  cfg : ConfigSpace
  bar : Fin 6 → UInt32
  ioremap : Nat → UInt32 → Option Nat

/-- `vp_cap_map_region` for the capability `cap`. -/
def mapRegion (f : PciDev) (cap bar : UInt8) (offset : UInt32) (vp : VirtioPciDevice) :
    Option Nat × VirtioPciDevice :=
  if h : bar.toNat < 6 then
    let barv := f.bar ⟨bar.toNat, h⟩
    if barv &&& 1 ≠ 0 then (none, vp)
    else
      let phys := (barv &&& ~~~0xF) + offset
      (f.ioremap vp.regions.length phys, { vp with regions := (cap, phys) :: vp.regions })
  else (none, vp)

/-- A round of the loop of `vp_parse_modern_caps`. -/
def parseCap (f : PciDev) (cap : UInt8) (vp : VirtioPciDevice) : VirtioPciDevice :=
  if f.cfg cap = 0x09 then
    let cfgType := f.cfg (cap + 3)
    let (region, mapped) :=
      mapRegion f cap (f.cfg (cap + 4)) (readConfigDword f.cfg (cap + 8)) vp
    if cfgType = 1 then { mapped with commonCfg := region }
    else if cfgType = 3 then { mapped with isrCfg := region }
    else if cfgType = 4 then
      { mapped with deviceCfg := region, deviceCfgLen := readConfigDword f.cfg (cap + 12) }
    else if cfgType = 2 then
      { mapped with
        notifyBase := region, notifyOffMultiplier := readConfigDword f.cfg (cap + 16) }
    else vp
  else vp

def parseLoop (f : PciDev) : Nat → UInt8 → VirtioPciDevice → Option VirtioPciDevice
  | 0, _, _ => none
  | fuel + 1, cap, vp =>
    if cap = 0 then some vp else parseLoop f fuel (next f.cfg cap) (parseCap f cap vp)

/-- `vp_parse_modern_caps`; without a list it returns before the last test. -/
def parseModernCaps (f : PciDev) (fuel : Nat) (vp : VirtioPciDevice) :
    Option VirtioPciDevice :=
  if f.cfg 0x34 = 0 then some { vp with regions := [] }
  else (parseLoop f fuel (f.cfg 0x34) { vp with regions := [] }).map fun vp =>
    if vp.commonCfg.isSome ∧ vp.notifyBase.isSome ∧ vp.deviceCfg.isSome ∧
      vp.notifyOffMultiplier ≠ 0 then { vp with modern := true } else vp

variable {cfg : ConfigSpace} {f : PciDev} {vp vp' : VirtioPciDevice} {cap : UInt8}
variable {n fuel : Nat}

lemma findLoop_ends (capId : UInt8) {limit : Nat} (hlimit : limit ≤ 48)
    (hfuel : 48 < fuel + limit) : ∃ found, findLoop cfg capId fuel limit cap = some found := by
  induction fuel generalizing limit cap with
  | zero => omega
  | succ fuel ih =>
    rw [findLoop]
    split_ifs
    · exact ⟨cap, rfl⟩
    · exact ih (by omega) (by omega)
    · exact ⟨0, rfl⟩

/-- The list from `cap` ends after `n` links. -/
def EndsAfter (cfg : ConfigSpace) (cap : UInt8) (n : Nat) : Prop :=
  (next cfg)^[n] cap = 0 ∧ ∀ k < n, (next cfg)^[k] cap ≠ 0

lemma EndsAfter.tail (h : EndsAfter cfg cap (n + 1)) : EndsAfter cfg (next cfg cap) n :=
  ⟨h.1, fun k hk => h.2 (k + 1) (Nat.succ_lt_succ hk)⟩

lemma EndsAfter.iterate_ne (h : EndsAfter cfg cap n) {i j : Nat} (hij : i < j) (hj : j ≤ n) :
    (next cfg)^[i] cap ≠ (next cfg)^[j] cap := by
  intro heq
  apply h.2 (n - j + i) (by omega)
  rw [iterate_add_apply, heq, ← iterate_add_apply, Nat.sub_add_cancel hj]
  exact h.1

lemma EndsAfter.nodup (h : EndsAfter cfg cap n) : (0 :: iterate (next cfg) cap n).Nodup := by
  refine nodup_cons.mpr ⟨fun hzero => ?_, pairwise_iff_getElem.mpr fun i j hi hj hij => ?_⟩
  · obtain ⟨k, hk, heq⟩ := mem_iterate.mp hzero
    exact h.2 k hk heq.symm
  · rw [getElem_iterate, getElem_iterate]
    exact h.iterate_ne hij (length_iterate .. ▸ hj).le

lemma EndsAfter.lt_256 (h : EndsAfter cfg cap n) : n < 256 := by
  have hcard := (h.nodup.map fun _ _ => UInt8.toFin_inj.mp).length_le_card
  simpa using hcard

/-- The capabilities for which regions are mapped. -/
def mapped (vp : VirtioPciDevice) : List UInt8 :=
  vp.regions.map Prod.fst

lemma mapped_parseCap (f : PciDev) (cap : UInt8) (vp : VirtioPciDevice) :
    mapped (parseCap f cap vp) <+ cap :: mapped vp := by
  have hmap (bar offset) : mapped (mapRegion f cap bar offset vp).2 <+ cap :: mapped vp := by
    unfold mapRegion
    dsimp only
    split_ifs
    · exact sublist_cons_self ..
    · exact Sublist.refl _
    · exact sublist_cons_self ..
  unfold parseCap
  dsimp only
  split_ifs
  any_goals exact hmap _ _
  all_goals exact sublist_cons_self ..

lemma parseLoop_of_endsAfter (vp : VirtioPciDevice) (h : EndsAfter f.cfg cap n)
    (hfuel : n < fuel) : ∃ vp', parseLoop f fuel cap vp = some vp' ∧
      mapped vp' <+ (iterate (next f.cfg) cap n).reverse ++ mapped vp := by
  induction n generalizing cap vp fuel with
  | zero =>
    obtain ⟨fuel, rfl⟩ := Nat.exists_eq_add_of_lt hfuel
    exact ⟨vp, if_pos h.1, Sublist.refl _⟩
  | succ n ih =>
    obtain ⟨fuel, rfl⟩ := Nat.exists_eq_succ_of_ne_zero (Nat.ne_zero_of_lt hfuel)
    obtain ⟨vp', heq, hsub⟩ := ih (parseCap f cap vp) h.tail (Nat.lt_of_succ_lt_succ hfuel)
    refine ⟨vp', (if_neg (h.2 0 (Nat.succ_pos n))).trans heq, hsub.trans ?_⟩
    rw [iterate, reverse_cons, append_assoc]
    exact (mapped_parseCap f cap vp).append_left _

/-- A walk that comes to its end has found the end of the list. -/
lemma ends_of_parseLoop (h : parseLoop f fuel cap vp = some vp') :
    ∃ n, (next f.cfg)^[n] cap = 0 := by
  induction fuel generalizing cap vp with
  | zero => cases h
  | succ fuel ih =>
    rw [parseLoop] at h
    split_ifs at h with hzero
    · exact ⟨0, hzero⟩
    · obtain ⟨n, hn⟩ := ih h
      exact ⟨n + 1, hn⟩

/--
`pci_find_capability` ends after 48 rounds at most. `vp_parse_modern_caps` ends, then after 255
rounds at most and with at most one region for each capability, exactly if the list ends.
-/
theorem capabilityWalks_end_iff (f : PciDev) (capId : UInt8) (vp : VirtioPciDevice) :
    ((∃ found, findCapability f.cfg capId 49 = some found) ∧
      ∃ vp', parseModernCaps f 256 vp = some vp' ∧ (mapped vp').Nodup) ↔
    ∃ n, (next f.cfg)^[n] (f.cfg 0x34) = 0 := by
  constructor
  · rintro ⟨-, vp', h, -⟩
    unfold parseModernCaps at h
    split_ifs at h with hzero
    · exact ⟨0, hzero⟩
    · obtain ⟨last, hlast, -⟩ := map_eq_some_iff.mp h
      exact ends_of_parseLoop hlast
  · intro hend
    have h : EndsAfter f.cfg (f.cfg 0x34) (Nat.find hend) :=
      ⟨Nat.find_spec hend, fun k hk => Nat.find_min hend hk⟩
    obtain ⟨last, hlast, hsub⟩ := parseLoop_of_endsAfter { vp with regions := [] } h h.lt_256
    have hnodup : (mapped last).Nodup :=
      hsub.nodup (by simpa [mapped] using (nodup_cons.mp h.nodup).2)
    refine ⟨findLoop_ends capId (Nat.zero_le 48) (Nat.lt_succ_self 48), ?_⟩
    unfold parseModernCaps
    split_ifs
    · exact ⟨_, rfl, nodup_nil⟩
    · refine ⟨_, map_eq_some_iff.mpr ⟨last, hlast, rfl⟩, ?_⟩
      split_ifs
      · exact hnodup
      · exact hnodup

/-- One capability that is linked to itself. -/
def selfLinked : PciDev :=
  ⟨fun offset => if offset = 0x34 ∨ offset = 0x41 then 0x40 else 0, fun _ => 0, fun _ _ => none⟩

/-- The second walk stays at this capability for ever. -/
theorem selfLinked_never_ends :
    ¬ ∃ fuel vp vp', parseModernCaps selfLinked fuel vp = some vp' := by
  rintro ⟨fuel, vp, vp', h⟩
  obtain ⟨last, hlast, -⟩ := map_eq_some_iff.mp h
  obtain ⟨n, hn⟩ := ends_of_parseLoop hlast
  have hfix : next selfLinked.cfg 0x40 = 0x40 := rfl
  exact absurd ((iterate_fixed hfix n).symm.trans hn) (by decide)

end LiteKernel.Drivers.Pci
