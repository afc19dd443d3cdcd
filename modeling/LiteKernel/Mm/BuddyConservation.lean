import LiteKernel.Mm.Buddy

/-!
# Conservation of frames in the page allocator

Main results:

- Theorem `buddy_conservation`: from the state that `mem_init` leaves, any sequence of
  `alloc_pages` and `free_pages` calls, with the calls that reclaim makes inside an allocation,
  only moves the frames that the zones were handed at boot between the free lists and the callers.
-/

namespace LiteKernel.Mm.PageAlloc

open Lib List State

variable {b : BootInfo} {s : State} {free : Lists} {i idx n : Nat}

/-! ## Boot -/

/-- The frames that `mem_init` hands to a zone: those it takes out of `PG_RESERVED`. -/
def handed (b : BootInfo) (z : ZoneType) : Finset Nat :=
  (Finset.range b.totalPages).filter fun p =>
    ((unreserve b.reserved b.mmap (initZones b)).memMap p).reserved = false ∧
      (initZones b).pfnToZone p = z

/-- The page `p` lies in an available entry of the memory map above one megabyte. -/
def MmapEntry.Offers (e : MmapEntry) (p : Nat) : Prop :=
  e.available = true ∧ 0x100000 ≤ e.addrLow.toNat ∧ e.addrLow.toNat / pageSize ≤ p ∧
    p < e.addrLow.toNat / pageSize + e.lenLow.toNat / pageSize

lemma unreservePages_spec (regions : List Bootmem.Region) (n pfn : Nat) (s : State) :
    SameLists s (unreservePages regions n pfn s) ∧
      (unreservePages regions n pfn s).owned = s.owned ∧
      ∀ p, ((unreservePages regions n pfn s).memMap p).reserved = false ↔
        (s.memMap p).reserved = false ∨ (pfn ≤ p ∧ p < pfn + n ∧ p < s.totalPages ∧
          Bootmem.bootmemIsReserved regions (p * pageSize) pageSize = false) := by
  induction n generalizing pfn s with
  | zero =>
    refine ⟨SameLists.refl s, rfl, fun p => (or_iff_left ?_).symm⟩
    omega
  | succ n ih =>
    have hrest : ∀ p, p ≠ pfn → (pfn + 1 ≤ p ∧ p < pfn + 1 + n ↔ pfn ≤ p ∧ p < pfn + (n + 1)) := by
      omega
    simp only [unreservePages]
    split
    · refine ⟨SameLists.refl s, rfl, fun p => (or_iff_left ?_).symm⟩
      omega
    · split_ifs with hres
      · obtain ⟨hsame, hown, hiff⟩ := ih (pfn + 1) s
        refine ⟨hsame, hown, fun p => (hiff p).trans (or_congr_right ?_)⟩
        by_cases hp : p = pfn
        · subst hp
          simp [hres]
        · simp only [← and_assoc, hrest p hp]
      · have hlt : pfn < s.totalPages := by omega
        obtain ⟨hsame, hown, hiff⟩ :=
          ih (pfn + 1) (s.setPage pfn fun pg => { pg with reserved := false })
        have hset : SameLists s (s.setPage pfn fun pg => { pg with reserved := false }) :=
          SameLists.setPage rfl fun _ => rfl
        refine ⟨hset.trans hsame, ?_, fun p => (hiff p).trans ?_⟩
        · rw [hown, setPage, if_pos hlt]
        · rw [setPage_memMap s hlt, setPage_totalPages]
          by_cases hp : p = pfn
          · subst hp
            have hres' : Bootmem.bootmemIsReserved regions (p * pageSize) pageSize = false := by
              simpa using hres
            simp [hlt, hres']
          · simp only [Function.update_of_ne hp, ← and_assoc, hrest p hp]

lemma unreserve_spec (regions : List Bootmem.Region) (entries : List MmapEntry) (s : State) :
    SameLists s (unreserve regions entries s) ∧ (unreserve regions entries s).owned = s.owned ∧
      ∀ p, ((unreserve regions entries s).memMap p).reserved = false ↔
        (s.memMap p).reserved = false ∨ ((∃ e ∈ entries, e.Offers p) ∧ p < s.totalPages ∧
          Bootmem.bootmemIsReserved regions (p * pageSize) pageSize = false) := by
  induction entries generalizing s with
  | nil =>
    refine ⟨SameLists.refl s, rfl, fun p => ?_⟩
    simp [unreserve]
  | cons e entries ih =>
    simp only [unreserve]
    split_ifs with he
    · obtain ⟨hsame, hown, hiff⟩ := unreservePages_spec regions
        (e.lenLow.toNat / pageSize) (e.addrLow.toNat / pageSize) s
      obtain ⟨hsame', hown', hiff'⟩ := ih (unreservePages regions
        (e.lenLow.toNat / pageSize) (e.addrLow.toNat / pageSize) s)
      refine ⟨hsame.trans hsame', hown'.trans hown, fun p => (hiff' p).trans ?_⟩
      have hoffers : e.Offers p ↔ e.addrLow.toNat / pageSize ≤ p ∧
          p < e.addrLow.toNat / pageSize + e.lenLow.toNat / pageSize := by
        constructor
        · exact fun h => h.2.2
        · exact fun h => ⟨he.1, by omega, h⟩
      rw [hiff p, hsame.totalPages]
      simp only [mem_cons, exists_eq_or_imp, hoffers]
      tauto
    · obtain ⟨hsame, hown, hiff⟩ := ih s
      refine ⟨hsame, hown, fun p => (hiff p).trans ?_⟩
      have hoffers : ¬ e.Offers p := by
        rintro ⟨h1, h2, _⟩
        exact he ⟨h1, by omega⟩
      simp only [mem_cons, exists_eq_or_imp, hoffers, false_or]

/-- The frames of a zone are the free pages of the memory map above one megabyte. -/
lemma mem_handed_iff (b : BootInfo) (z : ZoneType) (p : Nat) :
    p ∈ handed b z ↔ p < b.totalPages ∧ (initZones b).pfnToZone p = z ∧
      (∃ e ∈ b.mmap, e.Offers p) ∧
      Bootmem.bootmemIsReserved b.reserved (p * pageSize) pageSize = false := by
  unfold handed
  rw [Finset.mem_filter, Finset.mem_range, (unreserve_spec b.reserved b.mmap (initZones b)).2.2 p]
  have htotal : (initZones b).totalPages = b.totalPages := rfl
  rw [htotal]
  simp only [initZones, Bool.true_eq_false, false_or]
  tauto

lemma zero_not_mem_handed (b : BootInfo) (z : ZoneType) : 0 ∉ handed b z := by
  rw [mem_handed_iff]
  rintro ⟨_, _, ⟨e, _, _, hlow, hle, _⟩, _⟩
  unfold pageSize at hle
  omega

lemma lowerMaxOrder_le (total k : Nat) : lowerMaxOrder total k ≤ k := by
  induction k with
  | zero => exact le_rfl
  | succ k ih =>
    simp only [lowerMaxOrder]
    split
    · exact ih.trans (Nat.le_succ k)
    · exact le_rfl

lemma initZones_pfnToZone (b : BootInfo) (p : Nat) :
    (initZones b).pfnToZone p = if p < maxDmaPfn then .dma else .normal := by
  have hpos := b.totalPages_pos
  have hdma : ((initZones b).zone .dma).spannedPages ≠ 0 := by
    show min b.totalPages maxDmaPfn ≠ 0
    unfold maxDmaPfn
    omega
  simp [pfnToZone, hdma]

lemma initZones_geometry (b : BootInfo) : Geometry (initZones b) := by
  intro z p hp
  have htotal : p < b.totalPages := hp
  rw [initZones_pfnToZone]
  split
  · cases z with
    | dma =>
      refine ⟨fun _ => ⟨Nat.zero_le p, ?_⟩, fun _ => rfl⟩
      show p < 0 + min b.totalPages maxDmaPfn
      omega
    | normal =>
      refine ⟨fun h => (by cases h), fun h => ?_⟩
      have hle : min b.totalPages maxDmaPfn ≤ p := h.1
      omega
  · cases z with
    | dma =>
      refine ⟨fun h => (by cases h), fun h => ?_⟩
      have hlt : p < 0 + min b.totalPages maxDmaPfn := h.2
      omega
    | normal =>
      refine ⟨fun _ => ⟨?_, ?_⟩, fun _ => rfl⟩
      · show min b.totalPages maxDmaPfn ≤ p
        omega
      · show p < min b.totalPages maxDmaPfn + (b.totalPages - min b.totalPages maxDmaPfn)
        omega

lemma initZones_freeLists (b : BootInfo) : FreeLists (initZones b) fun _ _ => [] where
  maxOrder_lt := lt_of_le_of_lt (lowerMaxOrder_le b.totalPages (maxOrder - 1)) (by decide)
  threads z k _ := by
    cases z <;> simp [initZones, initZone, area]
  count z k _ := by
    cases z <;> rfl
  nodup _ _ := nodup_nil
  mem_iff z k p := by
    simp [initZones]
  aligned _ _ _ h := by simp at h
  order_le _ _ _ h := by simp at h

/-- The first `i` frames have been handed out, and nothing else. -/
structure Handing (b : BootInfo) (s : State) (free : Lists) (i : Nat) : Prop where
  stock : ∀ z, Stock s free z 0 ((handed b z).filter (· < i))
  total : s.totalPages = b.totalPages
  limit : s.buddyMaxOrder = (initZones b).buddyMaxOrder
  zones : ∀ p, s.pfnToZone p = (initZones b).pfnToZone p
  reserved : ∀ p, (s.memMap p).reserved =
    ((unreserve b.reserved b.mmap (initZones b)).memMap p).reserved
  owned : s.owned = []

lemma Handing.of_same {t : State} (h : Handing b s free i) (hsame : SameLists s t)
    (hown : t.owned = s.owned) (hres : ∀ p, (t.memMap p).reserved = (s.memMap p).reserved) :
    Handing b t free i where
  stock z := (h.stock z).of_same hsame
  total := hsame.totalPages.trans h.total
  limit := hsame.buddyMaxOrder.trans h.limit
  zones p := (hsame.pfnToZone p).trans (h.zones p)
  reserved p := (hres p).trans (h.reserved p)
  owned := hown.trans h.owned

lemma filter_lt_succ {S : Finset Nat} (hi : i ∉ S) : S.filter (· < i + 1) = S.filter (· < i) := by
  apply Finset.filter_congr
  intro p hp
  have hpi : p ≠ i := fun h => hi (h ▸ hp)
  omega

lemma Handing.freeFrame (h : Handing b s free i) (hi : i < b.totalPages)
    (hres : (s.memMap i).reserved = false) :
    ∃ free', Handing b (buddyFreeBlock s (s.pfnToZone i) i 0) free' (i + 1) := by
  have hmem : i ∈ handed b (s.pfnToZone i) := by
    unfold handed
    rw [Finset.mem_filter, Finset.mem_range]
    exact ⟨hi, (h.reserved i).symm.trans hres, (h.zones i).symm⟩
  have hne : i ≠ 0 := fun h0 => zero_not_mem_handed b _ (h0 ▸ hmem)
  have hinsert : insert i ((handed b (s.pfnToZone i)).filter (· < i)) =
      (handed b (s.pfnToZone i)).filter (· < i + 1) := by
    ext p
    simp only [Finset.mem_insert, Finset.mem_filter]
    constructor
    · rintro (rfl | ⟨hp, hlt⟩)
      · exact ⟨hmem, by omega⟩
      · exact ⟨hp, by omega⟩
    · rintro ⟨hp, hlt⟩
      by_cases hpi : p = i
      · exact .inl hpi
      · exact .inr ⟨hp, by omega⟩
  have hz := h.stock (s.pfnToZone i)
  have hheld : Stock s free (s.pfnToZone i) (⟨i, 0⟩ ::ₘ 0)
      ((handed b (s.pfnToZone i)).filter (· < i + 1)) := by
    refine ⟨hz.lists, hz.geometry, ?_, ?_, hz.apart⟩
    · intro f hf
      rw [← hinsert, Finset.mem_insert] at hf
      rcases hf with rfl | hf
      · exact ⟨hne, by rw [h.total]; exact hi, rfl⟩
      · exact hz.frames f hf
    · have htiles := hz.tiles.insert_frame (f := i) (by simp)
      rw [hinsert] at htiles
      simpa using htiles
  obtain ⟨free', hstock, hserves⟩ := hheld.freeBlock (one_dvd i) (Nat.zero_le _)
  refine ⟨free', ?_, ?_, ?_, ?_, ?_, ?_⟩
  · intro z
    by_cases hzi : z = s.pfnToZone i
    · subst hzi
      exact hstock
    · have hother := (h.stock z).of_serves hserves hzi hstock.lists
      have hnot : i ∉ handed b z := fun hp =>
        hzi ((Finset.mem_filter.mp hp).2.2.symm.trans (h.zones i).symm)
      rw [filter_lt_succ hnot]
      exact hother
  · exact hserves.keeps.totalPages.trans h.total
  · exact hserves.keeps.buddyMaxOrder.trans h.limit
  · exact fun p => (hserves.keeps.pfnToZone p).trans (h.zones p)
  · exact fun p => (hserves.keeps.reserved p).trans (h.reserved p)
  · exact hserves.keeps.owned.trans h.owned

/-- The loop of `mem_init` hands out every frame that is not reserved. -/
lemma Handing.handFrames (h : Handing b s free i) (hn : i + n = b.totalPages) :
    ∃ free', Handing b (handFrames n i s) free' b.totalPages := by
  induction n generalizing s free i with
  | zero =>
    obtain rfl : i = b.totalPages := by omega
    exact ⟨free, h⟩
  | succ n ih =>
    have hi : i < b.totalPages := by omega
    simp only [handFrames]
    by_cases hres : (s.memMap i).reserved = true
    · rw [if_pos hres]
      have hskip : Handing b s free (i + 1) := by
        refine ⟨?_, h.total, h.limit, h.zones, h.reserved, h.owned⟩
        intro z
        have hnot : i ∉ handed b z := fun hp => by
          have hfalse := (Finset.mem_filter.mp hp).2.1
          rw [← h.reserved, hres] at hfalse
          cases hfalse
        rw [filter_lt_succ hnot]
        exact h.stock z
      exact ih hskip (by omega)
    · rw [if_neg hres]
      have hres' : (s.memMap i).reserved = false := by simpa using hres
      have hsame : SameLists s (s.setZone (s.pfnToZone i) fun zn =>
          { zn with managedPages := zn.managedPages + 1 }) :=
        SameLists.setZone s _ fun _ => ⟨rfl, rfl, rfl⟩
      have h' := h.of_same hsame rfl fun _ => rfl
      have hbuddy := (h'.stock (s.pfnToZone i)).buddy_of_not_mem
        (p := i) (by rw [h'.total]; exact hi) (hsame.pfnToZone i) (by simp)
      obtain ⟨free', hfree⟩ := h'.freeFrame hi hres'
      rw [hsame.pfnToZone] at hfree
      rw [if_neg (by simp [hbuddy])]
      exact ih hfree (by omega)

/-! ## The invariant -/

/-- The blocks of a zone that callers hold. -/
def ownedIn (s : State) (z : ZoneType) : Multiset Block :=
  ((s.owned.filter fun b => decide (s.pfnToZone b.base = z) : List Block) : Multiset Block)

/-- The allocator serves the frames it was handed at boot. -/
structure Inv (b : BootInfo) (s : State) (free : Lists) : Prop where
  stock : ∀ z, Stock s free z (ownedIn s z) (handed b z)
  total : s.totalPages = b.totalPages
  limit : s.buddyMaxOrder = (initZones b).buddyMaxOrder
  owned : ∀ c ∈ s.owned, 2 ^ c.order ∣ c.base ∧ c.order ≤ s.buddyMaxOrder ∧
    ∀ f ∈ c.frames, (s.memMap f).refcount = 1

lemma Handing.inv (h : Handing b s free b.totalPages) : Inv b s free := by
  refine ⟨?_, h.total, h.limit, ?_⟩
  · intro z
    have hz := h.stock z
    have hall : (handed b z).filter (· < b.totalPages) = handed b z := by
      apply Finset.filter_true_of_mem
      intro p hp
      exact Finset.mem_range.mp (Finset.mem_filter.mp hp).1
    have hempty : ownedIn s z = 0 := by
      rw [ownedIn, h.owned]
      rfl
    rw [hall] at hz
    rw [hempty]
    exact hz
  · intro c hc
    rw [h.owned] at hc
    simp at hc

lemma memInit_handing (b : BootInfo) : ∃ free, Handing b (memInit b) free b.totalPages := by
  obtain ⟨hsame, hown, _⟩ := unreserve_spec b.reserved b.mmap (initZones b)
  have hstart : Handing b (unreserve b.reserved b.mmap (initZones b)) (fun _ _ => []) 0 := by
    refine ⟨?_, hsame.totalPages, hsame.buddyMaxOrder, hsame.pfnToZone, fun _ => rfl, hown⟩
    intro z
    refine ⟨hsame.freeLists (initZones_freeLists b), hsame.geometry (initZones_geometry b), ?_, ?_,
      fun _ _ _ hp => absurd hp not_mem_nil⟩
    · intro f hf
      simp at hf
    · simpa [freeBlocks] using Tiles.empty
  have hreset := (hstart.of_same (SameLists.setZone _ .dma
    (f := fun z => { z with managedPages := 0 }) fun _ => ⟨rfl, rfl, rfl⟩) rfl fun _ => rfl).of_same
      (SameLists.setZone _ .normal
        (f := fun z => { z with managedPages := 0 }) fun _ => ⟨rfl, rfl, rfl⟩) rfl fun _ => rfl
  obtain ⟨free, hhand⟩ := hreset.handFrames ((zero_add _).trans hreset.total)
  have hfinal := (hhand.of_same (SameLists.setZone _ .dma (f := setupWmarks)
    fun _ => ⟨rfl, rfl, rfl⟩) rfl fun _ => rfl).of_same (SameLists.setZone _ .normal
      (f := setupWmarks) fun _ => ⟨rfl, rfl, rfl⟩) rfl fun _ => rfl
  exact ⟨free, hfinal⟩

lemma memInit_inv (b : BootInfo) : ∃ free, Inv b (memInit b) free :=
  let ⟨free, h⟩ := memInit_handing b
  ⟨free, h.inv⟩

/-! ## Reference counts -/

@[simp]
lemma setPage_owned (s : State) (p : Nat) (f : Page → Page) :
    (s.setPage p f).owned = s.owned := by
  unfold setPage
  split <;> rfl

lemma setPage_memMap_of_ne (s : State) {p q : Nat} (h : q ≠ p) (f : Page → Page) :
    (s.setPage p f).memMap q = s.memMap q := by
  unfold setPage
  split
  · exact Function.update_of_ne h _ _
  · rfl

lemma setRefcounts_spec (n frame : Nat) (s : State) :
    SameLists s (setRefcounts n frame s) ∧ (setRefcounts n frame s).owned = s.owned ∧
      (∀ f, frame ≤ f → f < frame + n → f < s.totalPages →
        ((setRefcounts n frame s).memMap f).refcount = 1) ∧
      ∀ f, ¬ (frame ≤ f ∧ f < frame + n) → (setRefcounts n frame s).memMap f = s.memMap f := by
  induction n generalizing frame s with
  | zero =>
    refine ⟨SameLists.refl s, rfl, ?_, fun _ _ => rfl⟩
    intro f h1 h2
    omega
  | succ n ih =>
    obtain ⟨hsame, hown, hin, hout⟩ :=
      ih (frame + 1) (s.setPage frame fun pg => { pg with refcount := 1 })
    simp only [setRefcounts]
    refine ⟨(SameLists.setPage rfl fun _ => rfl).trans hsame, by rw [hown, setPage_owned], ?_, ?_⟩
    · intro f h1 h2 hf
      by_cases hff : f = frame
      · subst hff
        rw [hout f (by omega), setPage_memMap s hf]
        simp
      · exact hin f (by omega) (by omega) (by simpa using hf)
    · intro f hf
      rw [hout f (by omega), setPage_memMap_of_ne s (by omega)]

lemma lruDel_spec (s : State) (pfn : Nat) :
    SameLists s (lruDel s pfn) ∧ (lruDel s pfn).owned = s.owned ∧
      ∀ f, ((lruDel s pfn).memMap f).refcount = (s.memMap f).refcount := by
  unfold lruDel
  split
  · exact ⟨SameLists.refl s, rfl, fun _ => rfl⟩
  · have hzone : SameLists s (s.setZone (s.pfnToZone pfn) fun z =>
        { z with inactiveList := z.inactiveList.erase pfn, nrInactive := z.nrInactive - 1 }) :=
      SameLists.setZone s _ fun _ => ⟨rfl, rfl, rfl⟩
    refine ⟨hzone.trans (SameLists.setPage rfl fun _ => rfl), by rw [setPage_owned]; rfl, ?_⟩
    intro f
    exact (Keeps.setPage _ pfn (f := fun pg => { pg with lru := false })
      fun _ => ⟨rfl, rfl⟩).refcount f

lemma putFrame_spec (hlt : idx < s.totalPages) (href : (s.memMap idx).refcount = 1) :
    (putFrame s idx).1 = true ∧ SameLists s (putFrame s idx).2 ∧
      (putFrame s idx).2.owned = s.owned ∧
      ∀ f, f ≠ idx → ((putFrame s idx).2.memMap f).refcount = (s.memMap f).refcount := by
  obtain ⟨hsame, hown, hrefs⟩ := lruDel_spec s idx
  have href' : ((lruDel s idx).memMap idx).refcount = 1 := (hrefs idx).trans href
  have heq : putFrame s idx =
      (true, (lruDel s idx).setPage idx fun pg => { pg with refcount := 0 }) := by
    unfold putFrame
    rw [if_neg (not_not.mpr hlt)]
    simp only [href']
    rfl
  have hset : SameLists (lruDel s idx)
      ((lruDel s idx).setPage idx fun pg => { pg with refcount := 0 }) :=
    SameLists.setPage rfl fun _ => rfl
  rw [heq]
  refine ⟨rfl, hsame.trans hset, ?_, ?_⟩
  · rw [setPage_owned, hown]
  · intro f hf
    rw [setPage_memMap_of_ne _ hf, hrefs]

lemma putFrames_spec
    (h : ∀ f, idx ≤ f → f < idx + n → f < s.totalPages ∧ (s.memMap f).refcount = 1) :
    (putFrames n idx s).1 = true ∧ SameLists s (putFrames n idx s).2 ∧
      (putFrames n idx s).2.owned = s.owned ∧
      ∀ f, ¬ (idx ≤ f ∧ f < idx + n) →
        ((putFrames n idx s).2.memMap f).refcount = (s.memMap f).refcount := by
  induction n generalizing idx s with
  | zero => exact ⟨rfl, SameLists.refl s, rfl, fun _ _ => rfl⟩
  | succ n ih =>
    obtain ⟨hlt, href⟩ := h idx le_rfl (by omega)
    obtain ⟨hput, hsame, hown, hrefs⟩ := putFrame_spec hlt href
    have hnext : ∀ f, idx + 1 ≤ f → f < idx + 1 + n →
        f < (putFrame s idx).2.totalPages ∧ ((putFrame s idx).2.memMap f).refcount = 1 := by
      intro f h1 h2
      obtain ⟨hf, hr⟩ := h f (by omega) (by omega)
      exact ⟨by rw [hsame.totalPages]; exact hf, (hrefs f (by omega)).trans hr⟩
    obtain ⟨hput', hsame', hown', hrefs'⟩ := ih hnext
    simp only [putFrames]
    refine ⟨by rw [hput, hput']; rfl, hsame.trans hsame', hown'.trans hown, ?_⟩
    intro f hf
    rw [hrefs' f (by omega), hrefs f (by omega)]

/-! ## Calls -/

namespace Inv

variable {b : BootInfo} {s : State} {free : Lists}
variable {c : Block} {z : ZoneType}

lemma mem_ownedIn :
    c ∈ ownedIn s z ↔ c ∈ s.owned ∧ s.pfnToZone c.base = z := by
  simp [ownedIn]

lemma frames_of_owned (h : Inv b s free) (hc : c ∈ s.owned) :
    ∀ f ∈ c.frames, f ∈ handed b (s.pfnToZone c.base) := by
  intro f hf
  have hmem : c ∈ ownedIn s (s.pfnToZone c.base) := mem_ownedIn.mpr ⟨hc, rfl⟩
  exact ((h.stock _).tiles.mem_iff).mpr ⟨c, Multiset.mem_add.mpr (.inl hmem), hf⟩

lemma pairwise_disjoint (h : Inv b s free) : s.owned.Pairwise Block.Disjoint := by
  rw [pairwise_iff_getElem]
  intro i j hi hj hij f hfi hfj
  -- blocks of different zones are apart because their frames are
  have hiz := ((h.stock _).frames f (h.frames_of_owned (getElem_mem hi) f hfi)).2.2
  have hjz := ((h.stock _).frames f (h.frames_of_owned (getElem_mem hj) f hfj)).2.2
  have hzone := pairwise_filter.mp (h.stock (s.pfnToZone s.owned[i].base)).tiles.pairwise_disjoint
  exact pairwise_iff_getElem.mp hzone i j hi hj hij (decide_eq_true rfl)
    (decide_eq_true (hjz.symm.trans hiz)) f hfi hfj

lemma of_same (h : Inv b s free) {t : State} (hsame : SameLists s t) (hown : t.owned = s.owned)
    (hrefs : ∀ f, (t.memMap f).refcount = (s.memMap f).refcount) : Inv b t free := by
  have howned : ∀ z, ownedIn t z = ownedIn s z := by
    intro z
    unfold ownedIn
    rw [hown]
    congr 1
    apply filter_congr
    intro c _
    rw [hsame.pfnToZone]
  refine ⟨?_, hsame.totalPages.trans h.total, hsame.buddyMaxOrder.trans h.limit, ?_⟩
  · intro z
    rw [howned]
    exact (h.stock z).of_same hsame
  · intro c hc
    rw [hown] at hc
    obtain ⟨hal, hle, href⟩ := h.owned c hc
    refine ⟨hal, by rw [hsame.buddyMaxOrder]; exact hle, ?_⟩
    intro f hf
    rw [hrefs]
    exact href f hf

/--
A new block of the zone `z`, with one reference to each of its frames, joins
the blocks that are held.
-/
lemma own (h : Inv b s free) {p order : Nat} {s' : State} {free' : Lists} (hal : 2 ^ order ∣ p)
    (hle : order ≤ s.buddyMaxOrder)
    (hstock : Stock s' free' z (⟨p, order⟩ ::ₘ ownedIn s z) (handed b z))
    (hserves : Serves z s free s' free') :
    Inv b { setRefcounts (2 ^ order) p s' with
      owned := ⟨p, order⟩ :: (setRefcounts (2 ^ order) p s').owned } free' := by
  obtain ⟨hsame, hown, hin, hout⟩ := setRefcounts_spec (2 ^ order) p s'
  set t := setRefcounts (2 ^ order) p s'
  have hbase := hstock.base_of_held
  have hend := hstock.end_of_held
  have hkeeps := hserves.keeps
  have hzone : ∀ q, t.pfnToZone q = s.pfnToZone q := by
    intro q
    rw [hsame.pfnToZone, hkeeps.pfnToZone]
  have hpz : s.pfnToZone p = z := by
    rw [← hkeeps.pfnToZone]
    exact hbase.2.2.1
  have hsame' := hsame.trans (SameLists.setOwned t (⟨p, order⟩ :: t.owned))
  have hownedIn : ∀ z', ownedIn { t with owned := ⟨p, order⟩ :: t.owned } z' =
      if z' = z then ⟨p, order⟩ ::ₘ ownedIn s z' else ownedIn s z' := by
    intro z'
    have htail : (s.owned.filter fun c => decide (t.pfnToZone c.base = z')) =
        s.owned.filter fun c => decide (s.pfnToZone c.base = z') := by
      apply filter_congr
      intro c _
      rw [hzone]
    have hlist : t.owned = s.owned := hown.trans hkeeps.owned
    have hpz' : t.pfnToZone p = z := (hzone p).trans hpz
    unfold ownedIn
    show ((List.filter (fun c => decide (t.pfnToZone c.base = z'))
      (⟨p, order⟩ :: t.owned) : List Block) : Multiset Block) = _
    rw [hlist, filter_cons, htail, hpz']
    by_cases hz : z' = z
    · simp [hz]
    · simp [hz, Ne.symm hz]
  refine ⟨?_, ?_, ?_, ?_⟩
  · intro z'
    rw [hownedIn]
    by_cases hz : z' = z
    · subst hz
      rw [if_pos rfl]
      exact hstock.of_same hsame'
    · rw [if_neg hz]
      exact ((h.stock z').of_serves hserves hz hstock.lists).of_same hsame'
  · exact hsame.totalPages.trans (hkeeps.totalPages.trans h.total)
  · exact hsame.buddyMaxOrder.trans (hkeeps.buddyMaxOrder.trans h.limit)
  · intro c hc
    have hmax : t.buddyMaxOrder = s.buddyMaxOrder :=
      hsame.buddyMaxOrder.trans hkeeps.buddyMaxOrder
    rcases mem_cons.mp hc with rfl | hc
    · refine ⟨hal, by rw [← hmax] at hle; exact hle, ?_⟩
      intro f hf
      rw [Block.mem_frames] at hf
      exact hin f hf.1 hf.2 (lt_of_lt_of_le hf.2 hend.2)
    · have hcs : c ∈ s.owned := by
        rw [← hkeeps.owned, ← hown]
        exact hc
      obtain ⟨hal', hle', href⟩ := h.owned c hcs
      refine ⟨hal', by rw [← hmax] at hle'; exact hle', ?_⟩
      intro f hf
      -- a frame of an older block is not a frame of the new one
      have hnew : f ∉ (Block.mk p order).frames := by
        intro hfp
        have hfH : f ∈ handed b z :=
          hstock.tiles.mem_iff.mpr ⟨⟨p, order⟩, by simp, hfp⟩
        have hfz : s.pfnToZone f = z := by
          rw [← hkeeps.pfnToZone]
          exact (hstock.frames f hfH).2.2
        have hcz : s.pfnToZone f = s.pfnToZone c.base :=
          ((h.stock _).frames f (h.frames_of_owned hcs f hf)).2.2
        have hmem : c ∈ ownedIn s z := mem_ownedIn.mpr ⟨hcs, hcz.symm.trans hfz⟩
        have htiles := hstock.tiles
        rw [Multiset.cons_add] at htiles
        exact htiles.not_mem_of_cons (Multiset.mem_add.mpr (.inl hmem)) f hfp hf
      rw [Block.mem_frames] at hnew
      rw [hout f hnew, hkeeps.refcount]
      exact href f hf

end Inv

/-- What an allocation leaves: nothing new, or a new block to be held. -/
def Allocates (b : BootInfo) (order : Nat) : Option Nat × State → Prop
  | (none, s) => ∃ free, Inv b s free
  | (some p, s) => p ≠ 0 ∧ ∃ free, Inv b { s with owned := ⟨p, order⟩ :: s.owned } free

section Alloc

variable {b : BootInfo} {reclaim : ZoneType → State → State}
  (hreclaim : ∀ z s free, Inv b s free → ∃ free', Inv b (reclaim z s) free')

variable {s : State} {free : Lists}

include hreclaim

lemma allocZone_spec (h : Inv b s free) (order : Nat) (mark : Watermark) (z : ZoneType) :
    Allocates b order (allocZone reclaim order mark z s) := by
  unfold allocZone
  split
  · rcases (h.stock z).alloc order with hnone | ⟨p, s', free', hsome, hal, hle, hstock, hserves⟩
    · rw [hnone]
      exact ⟨free, h⟩
    · rw [hsome]
      exact ⟨hstock.base_of_held.1, free', h.own hal hle hstock hserves⟩
  · split
    · exact hreclaim z s free h
    · exact ⟨free, h⟩

lemma allocRounds_spec (h : Inv b s free) (order : Nat) (rounds : List (Watermark × ZoneType)) :
    Allocates b order (allocRounds reclaim order rounds s) := by
  induction rounds generalizing s free with
  | nil => exact ⟨free, h⟩
  | cons round rounds ih =>
    obtain ⟨mark, z⟩ := round
    have hzone := allocZone_spec hreclaim h order mark z
    simp only [allocRounds]
    rcases hr : allocZone reclaim order mark z s with ⟨_ | p, s'⟩
    · rw [hr] at hzone
      obtain ⟨free', h'⟩ := hzone
      exact ih h'
    · rw [hr] at hzone
      exact hzone

lemma Inv.alloc (h : Inv b s free) (gfp order : Nat) :
    ∃ free', Inv b (PageAlloc.own order (allocPages reclaim gfp order s)) free' := by
  have hspec := allocRounds_spec hreclaim h order
    ([Watermark.high, .low, .min].flatMap fun mark => (zonelist s gfp).map fun z => (mark, z))
  have hpages : allocPages reclaim gfp order s =
      match allocPagesNodemask reclaim gfp order s with
      | (none, s) => (none, s)
      | (some pfn, s) =>
          if pfn = 0 then
            allocPagesTries reclaim gfp order 3
              (s.setPage 0 fun pg => { pg with reserved := true, refcount := 1 })
          else (some (pfn * pageSize), s) := rfl
  rw [hpages, allocPagesNodemask]
  rcases hr : allocRounds reclaim order ([Watermark.high, .low, .min].flatMap fun mark =>
    (zonelist s gfp).map fun z => (mark, z)) s with ⟨_ | p, s'⟩
  · rw [hr] at hspec
    exact hspec
  · rw [hr] at hspec
    obtain ⟨hp, free', h'⟩ := hspec
    have hdiv : p * pageSize / pageSize = p := Nat.mul_div_cancel p (by decide)
    refine ⟨free', ?_⟩
    simp only [if_neg hp, PageAlloc.own, hdiv]
    exact h'

end Alloc

/-- The owner of a block can always free it, and the frames go back to their zone. -/
lemma freePages_of_owned (h : Inv b s free) {c : Block} (hc : s.owned[i]? = some c) :
    ∃ s' free', freePages s (c.base * pageSize) c.order = .ok s' ∧ s'.owned = s.owned ∧
      Inv b { s' with owned := s'.owned.eraseIdx i } free' := by
  obtain ⟨hi, hget⟩ := List.getElem?_eq_some_iff.mp hc
  have hmem : c ∈ s.owned := hget ▸ getElem_mem hi
  have hperm : (c :: s.owned.eraseIdx i).Perm s.owned := hget ▸ getElem_cons_eraseIdx_perm hi
  obtain ⟨hal, hle, href⟩ := h.owned c hmem
  -- the stock of the zone of the block, with the block in front
  have hsplit : ∀ z, ownedIn s z =
      if z = s.pfnToZone c.base then
        c ::ₘ ((s.owned.eraseIdx i).filter fun d => decide (s.pfnToZone d.base = z) : List Block)
      else ((s.owned.eraseIdx i).filter fun d => decide (s.pfnToZone d.base = z) : List Block) := by
    intro z
    have hfilter := hperm.filter fun d => decide (s.pfnToZone d.base = z)
    unfold ownedIn
    rw [← Multiset.coe_eq_coe.mpr hfilter, filter_cons]
    by_cases hz : s.pfnToZone c.base = z
    · simp [hz]
    · simp [hz, Ne.symm hz]
  have hheld := h.stock (s.pfnToZone c.base)
  rw [hsplit, if_pos rfl] at hheld
  have hend := hheld.end_of_held
  have hframes : ∀ f, c.base ≤ f → f < c.base + 2 ^ c.order →
      f < s.totalPages ∧ (s.memMap f).refcount = 1 := by
    intro f h1 h2
    exact ⟨lt_of_lt_of_le h2 hend.2, href f (Block.mem_frames.mpr ⟨h1, h2⟩)⟩
  obtain ⟨hput, hsame, hown, hrefs⟩ := putFrames_spec hframes
  have hput' := hheld.of_same hsame
  obtain ⟨free', hstock, hserves⟩ := hput'.freeBlock hal (by rw [hsame.buddyMaxOrder]; exact hle)
  set t := buddyFreeBlock (putFrames (2 ^ c.order) c.base s).2 (s.pfnToZone c.base) c.base c.order
  have hkeeps := hserves.keeps
  have hzone : ∀ q, t.pfnToZone q = s.pfnToZone q := by
    intro q
    rw [hkeeps.pfnToZone, hsame.pfnToZone]
  refine ⟨t, free', ?_, hkeeps.owned.trans hown, ?_⟩
  · have hlt := hheld.base_of_held.2.1
    have htotal := h.total
    have hbound := b.totalPages_le
    have haddr : ¬ (c.base * pageSize ≥ 0xC0000000) := by
      unfold pageSize
      omega
    have halign : PageAligned (c.base * pageSize) := by
      unfold PageAligned pageSize
      omega
    have hdiv : c.base * pageSize / pageSize = c.base := Nat.mul_div_cancel _ (by decide)
    unfold freePages
    rw [if_neg haddr, if_neg (not_not.mpr halign)]
    simp only [hdiv]
    rw [if_neg (by omega), if_pos hput, hsame.pfnToZone]
  · have hlist : t.owned = s.owned := hkeeps.owned.trans hown
    rw [hlist]
    have hsame' := SameLists.setOwned t (s.owned.eraseIdx i)
    have hownedIn : ∀ z, ownedIn { t with owned := s.owned.eraseIdx i } z =
          ((s.owned.eraseIdx i).filter fun d => decide (s.pfnToZone d.base = z) : List Block) := by
      intro z
      unfold ownedIn
      congr 1
      apply filter_congr
      intro d _
      rw [hsame'.pfnToZone, hzone]
    refine ⟨?_, ?_, ?_, ?_⟩
    · intro z
      rw [hownedIn]
      by_cases hz : z = s.pfnToZone c.base
      · subst hz
        exact hstock.of_same hsame'
      · have hother := h.stock z
        rw [hsplit, if_neg hz] at hother
        exact ((hother.of_same hsame).of_serves hserves hz hstock.lists).of_same hsame'
    · exact hkeeps.totalPages.trans (hsame.totalPages.trans h.total)
    · exact hkeeps.buddyMaxOrder.trans (hsame.buddyMaxOrder.trans h.limit)
    · intro d hd
      have hds : d ∈ s.owned := (eraseIdx_sublist s.owned i).subset hd
      obtain ⟨hal', hle', href'⟩ := h.owned d hds
      refine ⟨hal', ?_, ?_⟩
      · have hmax := hkeeps.buddyMaxOrder.trans hsame.buddyMaxOrder
        rw [← hmax] at hle'
        exact hle'
      · intro f hf
        -- the freed block shares no frame with the blocks that stay
        have hapart := (hperm.pairwise_iff fun hab f hb ha => hab f ha hb).mpr h.pairwise_disjoint
        have hdisj : ¬ (c.base ≤ f ∧ f < c.base + 2 ^ c.order) := fun hfc =>
          (pairwise_cons.mp hapart).1 d hd f (Block.mem_frames.mpr hfc) hf
        rw [hkeeps.refcount, hrefs f hdisj]
        exact href' f hf

lemma Inv.disown (h : Inv b s free) (i : Nat) : ∃ free', Inv b (disown s i) free' := by
  unfold PageAlloc.disown
  cases hc : s.owned[i]? with
  | none => exact ⟨free, h⟩
  | some c =>
    obtain ⟨s', free', hok, -, hinv⟩ := freePages_of_owned h hc
    simp only [hok]
    exact ⟨free', hinv⟩

lemma Inv.lruAdd (h : Inv b s free) (pfn : Nat) : Inv b (lruAddInactive s pfn) free := by
  unfold lruAddInactive
  split
  · exact h
  · simp only
    split
    · exact h
    · have hzone : SameLists s (s.setZone (s.pfnToZone pfn) fun z =>
          { z with inactiveList := z.inactiveList ++ [pfn], nrInactive := z.nrInactive + 1 }) :=
        SameLists.setZone s _ fun _ => ⟨rfl, rfl, rfl⟩
      refine h.of_same (hzone.trans (SameLists.setPage rfl fun _ => rfl))
        (by rw [setPage_owned]; rfl) ?_
      intro f
      exact (Keeps.setPage _ pfn (f := fun pg => { pg with lru := true })
        fun _ => ⟨rfl, rfl⟩).refcount f

mutual

lemma call_inv : ∀ (c : Call) {s : State} {free : Lists}, Inv b s free →
    ∃ free', Inv b (call c s) free'
  | .alloc gfp order reclaim, _, _, h =>
      h.alloc (fun z _ _ hs => calls_inv (reclaim z) hs) gfp order
  | .free i, _, _, h => h.disown i
  | .lruAdd pfn, _, free, h => ⟨free, h.lruAdd pfn⟩

lemma calls_inv : ∀ (cs : List Call) {s : State} {free : Lists}, Inv b s free →
    ∃ free', Inv b (calls cs s) free'
  | [], _, free, h => ⟨free, h⟩
  | c :: cs, _, _, h =>
      let ⟨_, h'⟩ := call_inv c h
      calls_inv cs h'

end

/-! ## Conservation -/

/--
The free lists `free` and the blocks that are held account for the frames
handed to each zone at boot.
-/
structure Conserved (b : BootInfo) (s : State) (free : Lists) : Prop where
  lists : ∀ z k, k < maxOrder → Threads s.buddyNext (s.area z k).freeList (free z k)
  nrFree : ∀ z k, k < maxOrder → (s.area z k).nrFree = (free z k).length
  flags : ∀ p, p < b.totalPages → ∀ k,
    ((s.memMap p).buddy = true ∧ (s.memMap p).order = k) ↔ ∃ z, p ∈ free z k
  blocks : ∀ z k p, p ∈ free z k →
    k < maxOrder ∧ 2 ^ k ∣ p ∧ (s.zone z).startPfn ≤ p ∧ p + 2 ^ k ≤ (s.zone z).endPfn
  partition : ∀ z, Tiles (ownedIn s z + freeBlocks free z) (handed b z)
  disjoint : s.owned.Pairwise Block.Disjoint

lemma Inv.conserved (h : Inv b s free) :
    Conserved b s free where
  lists := (h.stock .dma).lists.threads
  nrFree := (h.stock .dma).lists.count
  flags p hp k := by
    rw [← h.total] at hp
    constructor
    · rintro ⟨hb, ho⟩
      exact ⟨s.pfnToZone p, ((h.stock .dma).lists.mem_iff _ _ _).mpr ⟨hp, rfl, hb, ho⟩⟩
    · rintro ⟨z, hz⟩
      exact (((h.stock .dma).lists.mem_iff _ _ _).mp hz).2.2
  blocks z k p hp := by
    have hlists := (h.stock z).lists
    have hk := lt_of_le_of_lt (hlists.order_le z k p hp) hlists.maxOrder_lt
    exact ⟨hk, hlists.aligned z k p hp, (h.stock z).end_of_free hp⟩
  partition z := (h.stock z).tiles
  disjoint := h.pairwise_disjoint

/--
From the state left by `mem_init`, after every sequence of allocations and releases,
with any further calls that reclaim makes inside an allocation: in each zone the
free blocks and the held blocks partition the frames handed to it; free blocks are
aligned and inside their zone; `PG_BUDDY`, the list links and `nr_free` agree on
them; and the held blocks, the newest included, are disjoint.
-/
theorem buddy_conservation (b : BootInfo) (cs : List Call) :
    ∃ free : Lists, Conserved b (calls cs (memInit b)) free := by
  obtain ⟨free, hinit⟩ := memInit_inv b
  obtain ⟨free', hinv⟩ := calls_inv cs hinit
  exact ⟨free', hinv.conserved⟩

/-- Eight frames above one megabyte: a request for two of them splits the block of order three. -/
example :
    (calls [.alloc 0 1 fun _ => []] (memInit
      { totalPages := 264, mmap := [⟨true, 0x100000, 0x8000⟩], reserved := [⟨0, 0x100000⟩],
        totalPages_pos := by decide, totalPages_le := by decide })).owned = [⟨256, 1⟩] := by
  decide +kernel

end LiteKernel.Mm.PageAlloc
