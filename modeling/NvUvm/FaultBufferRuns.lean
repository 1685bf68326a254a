import NvUvm.FaultBuffer
import NvUvm.Lib.RingLog
import NvUvm.Lib.Run

/-!
# The fault buffer along runs

Entries are numbered in the order in which the GPU reserves them, and entry number `k` lies in the slot
`slot n t.get k`.  GET, the local `get` of the driver, the cached PUT, PUT and the entries that the GPU
has reserved are all positions of this kind, in this order, and they span less than the ring.
-/

namespace NvUvm.FaultBuffer

open Lib Lib.Ring Lib.RingLog
open Function (update update_of_ne update_self)

/-! ## What is right -/

/-- The `k`-th consumed entry is entry number `k` of the ring, was valid, and lay between GET and
PUT. -/
structure Orderly (cfg : Config) (base k : ℕ) (c : Consumed) : Prop where
  number : c.number = k
  index : c.index = slot cfg.maxFaults base k
  valid : c.valid = true
  beforePut : InRing cfg.maxFaults c.get c.put c.index

/-- The first `count` elements of the fault cache are the entries that were consumed last. -/
def Cached (s : State) (count : ℕ) : Prop :=
  ∀ j < count, ∃ c, s.consumed[s.consumed.length - count + j]? = some c ∧
    s.faultCache j = parseEntry c.fault

/-- The entries are consumed in the order of the ring, each of them once, when it is valid and not past
PUT.  A fetch returns by how many entries GET has moved, and these are the ones in the fault cache, which
is not overrun. -/
structure Right {cfg : Config} (t : Taken cfg) (s : State) : Prop where
  inOrder : ∀ (k : ℕ) (c : Consumed), s.consumed[k]? = some c → Orderly cfg t.get k c
  fetched : ∀ before count after, s.returned = some (.fetched before count after) →
    count = (after + (cfg.maxFaults - before)) % cfg.maxFaults ∧ Cached s count
  cacheOverrun : s.cacheOverrun = false

/-! ## The slots -/

variable {cfg : Config} {base : ℕ}

theorem advance_slot {k : ℕ} :
    advance cfg (slot cfg.maxFaults base k) = slot cfg.maxFaults base (k + 1) := by
  rw [← next_slot, next_eq (slot_lt cfg.pos), advance]

/-- The reserved entries that are left are numbered `lo` to `hi`; each of them is valid or is being
written, and the other slots are free. -/
structure Entries (cfg : Config) (base lo hi : ℕ) (s : State) : Prop where
  number : ∀ k, lo ≤ k → k < hi → s.number (slot cfg.maxFaults base k) = k
  reserved : ∀ k, lo ≤ k → k < hi →
    s.writing (slot cfg.maxFaults base k) = !s.valid (slot cfg.maxFaults base k)
  notWriting : ∀ k, hi ≤ k → k < lo + cfg.maxFaults →
    s.writing (slot cfg.maxFaults base k) = false
  notValid : ∀ k, hi ≤ k → k < lo + cfg.maxFaults → s.valid (slot cfg.maxFaults base k) = false

namespace Entries

variable {lo hi : ℕ} {s : State}

theorem reserveEntry (h : Entries cfg base lo hi s) (hlo : lo ≤ hi) (hroom : hi < lo + cfg.maxFaults)
    (hresv : s.reserve = slot cfg.maxFaults base hi) (hnum : s.numReserved = hi) :
    Entries cfg base lo (hi + 1)
      { s with
        reserve := advance cfg s.reserve
        writing := update s.writing s.reserve true
        number := update s.number s.reserve s.numReserved
        numReserved := s.numReserved + 1 } := by
  rw [hresv, hnum]
  have hne : ∀ k, lo ≤ k → k < lo + cfg.maxFaults → k ≠ hi →
      slot cfg.maxFaults base k ≠ slot cfg.maxFaults base hi := by
    intro k hk hlt hkhi
    rcases Nat.lt_or_gt_of_ne hkhi with hbefore | hbehind
    · exact slot_ne hbefore (by omega)
    · exact (slot_ne hbehind (by omega)).symm
  refine ⟨fun k hk hlt => ?_, fun k hk hlt => ?_, fun k hk hlt => ?_, fun k hk hlt => ?_⟩
  · dsimp only
    by_cases hkhi : k = hi
    · rw [hkhi, update_self]
    · rw [update_of_ne (hne k hk (by omega) hkhi)]
      exact h.number k hk (by omega)
  · dsimp only
    by_cases hkhi : k = hi
    · rw [hkhi, update_self, h.notValid hi le_rfl hroom]
      rfl
    · rw [update_of_ne (hne k hk (by omega) hkhi)]
      exact h.reserved k hk (by omega)
  · dsimp only
    rw [update_of_ne (hne k (by omega) hlt (by omega))]
    exact h.notWriting k (by omega) hlt
  · exact h.notValid k (by omega) hlt

theorem writeEntry (h : Entries cfg base lo hi s) {index : ℕ} {fault : RawFault}
    (hwriting : s.writing index = true) :
    Entries cfg base lo hi
      { s with
        writing := update s.writing index false
        valid := update s.valid index true
        entry := update s.entry index fault } := by
  have hne : ∀ k, hi ≤ k → k < lo + cfg.maxFaults → slot cfg.maxFaults base k ≠ index := by
    rintro k hk hlt rfl
    rw [h.notWriting k hk hlt] at hwriting
    cases hwriting
  refine ⟨h.number, fun k hk hlt => ?_, fun k hk hlt => ?_, fun k hk hlt => ?_⟩
  · dsimp only
    by_cases hidx : slot cfg.maxFaults base k = index
    · rw [hidx, update_self, update_self]
      rfl
    · rw [update_of_ne hidx, update_of_ne hidx]
      exact h.reserved k hk hlt
  · dsimp only
    rw [update_of_ne (hne k hk hlt)]
    exact h.notWriting k hk hlt
  · dsimp only
    rw [update_of_ne (hne k hk hlt)]
    exact h.notValid k hk hlt

theorem consume (h : Entries cfg base lo hi s) (hlt : lo < hi) (hroom : hi ≤ lo + cfg.maxFaults)
    (hvalid : s.valid (slot cfg.maxFaults base lo) = true) :
    Entries cfg base (lo + 1) hi (s.consume (slot cfg.maxFaults base lo)) := by
  have hturn : slot cfg.maxFaults base (lo + cfg.maxFaults) = slot cfg.maxFaults base lo :=
    slot_add_size
  have hne : ∀ k, lo < k → k < lo + cfg.maxFaults →
      slot cfg.maxFaults base k ≠ slot cfg.maxFaults base lo := by
    intro k hk hlt'
    exact (slot_ne hk (by omega)).symm
  have hwritten := h.reserved lo le_rfl hlt
  rw [hvalid] at hwritten
  refine ⟨fun k hk hlt' => h.number k (by omega) hlt', fun k hk hlt' => ?_, fun k hk hlt' => ?_,
    fun k hk hlt' => ?_⟩
  · show s.writing _ = !update s.valid _ false _
    rw [update_of_ne (hne k (by omega) (by omega))]
    exact h.reserved k (by omega) hlt'
  · -- behind the free slots is now that of the entry
    by_cases hlast : k = lo + cfg.maxFaults
    · rw [hlast, hturn]
      exact hwritten
    · exact h.notWriting k hk (by omega)
  · show update s.valid _ false _ = false
    by_cases hlast : k = lo + cfg.maxFaults
    · rw [hlast, hturn, update_self]
    · rw [update_of_ne (hne k (by omega) (by omega))]
      exact h.notValid k hk (by omega)

end Entries

/-! ## The invariant -/

/-- The entries behind GET, the cached PUT and PUT have the numbers `g`, `q` and `p`. -/
structure Counts (cfg : Config) (base : ℕ) (s : State) (g q p : ℕ) : Prop where
  get : s.get = slot cfg.maxFaults base g
  cachedPut : s.cachedPut = slot cfg.maxFaults base q
  put : s.put = slot cfg.maxFaults base p
  reserve : s.reserve = slot cfg.maxFaults base s.numReserved
  getLe : g ≤ s.consumed.length
  consumedLe : s.consumed.length ≤ q
  cachedLe : q ≤ p
  putLe : p ≤ s.numReserved
  room : s.numReserved < g + cfg.maxFaults

def PcRight (cfg : Config) (base : ℕ) (s : State) (g q : ℕ) : Prop :=
  match s.pc with
  | .idle => s.cachedGet = slot cfg.maxFaults base s.consumed.length ∧ g = s.consumed.length
  | .slowPath => s.cachedGet = slot cfg.maxFaults base s.consumed.length ∧ g = s.consumed.length
  | .fetching _ before i cachedFaults get put =>
    before = slot cfg.maxFaults base g ∧ cachedFaults = i ∧ g + i = s.consumed.length ∧
      get = slot cfg.maxFaults base s.consumed.length ∧ put = slot cfg.maxFaults base q ∧ Cached s i
  | .fetched before cachedFaults =>
    s.cachedGet = slot cfg.maxFaults base s.consumed.length ∧ before = slot cfg.maxFaults base g ∧
      g + cachedFaults = s.consumed.length ∧ Cached s cachedFaults
  | .flushing get put =>
    get = slot cfg.maxFaults base s.consumed.length ∧ put = slot cfg.maxFaults base q
  | .flushed => s.cachedGet = slot cfg.maxFaults base s.consumed.length

/-- The invariant of the runs. -/
structure Inv {cfg : Config} (t : Taken cfg) (s : State) : Prop where
  right : Right t s
  entries : Entries cfg t.get s.consumed.length s.numReserved s
  idle : s.returned ≠ none → s.pc = .idle
  counts : ∃ g q p, Counts cfg t.get s g q p ∧ PcRight cfg t.get s g q

variable {t : Taken cfg} {s : State}

theorem Inv.taken (t : Taken cfg) : Inv t (State.taken t) := by
  have hring : ∀ k, k < cfg.maxFaults → dist cfg.maxFaults t.get (slot cfg.maxFaults t.get k) = k := by
    intro k hk
    have hdist : dist cfg.maxFaults (slot cfg.maxFaults t.get 0) (slot cfg.maxFaults t.get k) = k - 0 :=
      dist_slot (Nat.zero_le k) (by omega)
    rw [slot_zero t.getLt, Nat.sub_zero] at hdist
    exact hdist
  have hresv : dist cfg.maxFaults t.get t.reserve < cfg.maxFaults := dist_lt t.getLt t.reserveLt
  have hin : ∀ k, k < dist cfg.maxFaults t.get t.reserve →
      InRing cfg.maxFaults t.get t.reserve (slot cfg.maxFaults t.get k) := by
    intro k hk
    refine ⟨slot_lt cfg.pos, ?_⟩
    rw [hring k (by omega)]
    exact hk
  have hout : ∀ k, dist cfg.maxFaults t.get t.reserve ≤ k → k < 0 + cfg.maxFaults →
      ¬ InRing cfg.maxFaults t.get t.reserve (slot cfg.maxFaults t.get k) := by
    rintro k hk hlt ⟨-, hdist⟩
    rw [hring k (by omega)] at hdist
    omega
  refine ⟨⟨?_, ?_, rfl⟩, ⟨?_, ?_, ?_, ?_⟩, fun h => absurd rfl h, ?_⟩
  · intro k c hc
    cases hc
  · intro before count after hret
    cases hret
  · intro k _ hk
    exact hring k (hk.trans hresv)
  · intro k _ hk
    simp only [State.taken, hin k hk, decide_true, Bool.true_and]
  · intro k hk hlt
    simp only [State.taken, hout k hk hlt, decide_false, Bool.false_and]
  · intro k hk hlt
    simp only [State.taken, hout k hk hlt, decide_false, Bool.false_and]
  · refine ⟨0, dist cfg.maxFaults t.get t.put, dist cfg.maxFaults t.get t.put, ?_, ?_⟩
    · exact
        { get := (slot_zero t.getLt).symm
          cachedPut := (slot_dist t.getLt t.putLt).symm
          put := (slot_dist t.getLt t.putLt).symm
          reserve := (slot_dist t.getLt t.reserveLt).symm
          getLe := le_rfl
          consumedLe := Nat.zero_le _
          cachedLe := le_rfl
          putLe := t.putLe
          room := by
            rw [Nat.zero_add]
            exact hresv }
    · exact ⟨(slot_zero t.getLt).symm, rfl⟩

/-! ## Steps of the GPU -/

theorem Inv.reserveEntry (h : Inv t s) : Inv t (s.reserveEntry cfg) := by
  unfold State.reserveEntry
  split
  · exact h
  next hfree =>
    obtain ⟨g, q, p, hc, hpc⟩ := h.counts
    have hle := hc.getLe
    have hconsumed := hc.consumedLe
    have hcached := hc.cachedLe
    have hput := hc.putLe
    have hroom := hc.room
    -- the slot behind the new entry is not that of GET
    have hspare : s.numReserved + 1 < g + cfg.maxFaults := by
      rcases Nat.lt_or_ge (s.numReserved + 1) (g + cfg.maxFaults) with hlt | hge
      · exact hlt
      · exfalso
        apply hfree
        rw [hc.reserve, hc.get, advance_slot, show s.numReserved + 1 = g + cfg.maxFaults by omega,
          slot_add_size]
    refine ⟨⟨h.right.inOrder, h.right.fetched, h.right.cacheOverrun⟩,
      h.entries.reserveEntry (by omega) (by omega) hc.reserve rfl, h.idle, g, q, p, ?_, hpc⟩
    exact
      { get := hc.get
        cachedPut := hc.cachedPut
        put := hc.put
        reserve := by
          rw [hc.reserve]
          exact advance_slot
        getLe := hle
        consumedLe := hconsumed
        cachedLe := hcached
        putLe := hput.trans (Nat.le_succ _)
        room := hspare }

theorem Inv.writeEntry (h : Inv t s) (index : ℕ) (fault : RawFault) :
    Inv t (s.writeEntry index fault) := by
  unfold State.writeEntry
  split
  · next hwriting =>
    obtain ⟨g, q, p, hc, hpc⟩ := h.counts
    exact ⟨⟨h.right.inOrder, h.right.fetched, h.right.cacheOverrun⟩, h.entries.writeEntry hwriting,
      h.idle, g, q, p, ⟨hc.get, hc.cachedPut, hc.put, hc.reserve, hc.getLe, hc.consumedLe,
        hc.cachedLe, hc.putLe, hc.room⟩, hpc⟩
  · exact h

theorem Inv.advancePut (h : Inv t s) : Inv t (s.advancePut cfg) := by
  unfold State.advancePut
  split
  · exact h
  next hne =>
    obtain ⟨g, q, p, hc, hpc⟩ := h.counts
    have hlt : p < s.numReserved := by
      rcases Nat.lt_or_eq_of_le hc.putLe with hlt | heq
      · exact hlt
      · exact absurd (by rw [hc.put, hc.reserve, heq]) hne
    refine ⟨⟨h.right.inOrder, h.right.fetched, h.right.cacheOverrun⟩,
      ⟨h.entries.number, h.entries.reserved, h.entries.notWriting, h.entries.notValid⟩, h.idle,
      g, q, p + 1, ?_, hpc⟩
    exact
      { get := hc.get
        cachedPut := hc.cachedPut
        put := by
          rw [hc.put]
          exact advance_slot
        reserve := hc.reserve
        getLe := hc.getLe
        consumedLe := hc.consumedLe
        cachedLe := hc.cachedLe.trans (Nat.le_succ p)
        putLe := hlt
        room := hc.room }

/-! ## The beginning of a call -/

variable {g p q get put : ℕ}

theorem Counts.readPut (h : Counts cfg base s g q p) :
    Counts cfg base { s with cachedPut := s.put } g p p :=
  { get := h.get
    cachedPut := h.put
    put := h.put
    reserve := h.reserve
    getLe := h.getLe
    consumedLe := h.consumedLe.trans h.cachedLe
    cachedLe := le_rfl
    putLe := h.putLe
    room := h.room }

theorem Counts.choosePut (h : Counts cfg base s g q p) (b : Prop) [Decidable b] :
    ∃ q', Counts cfg base { s with cachedPut := if b then s.put else s.cachedPut } g q' p := by
  split
  · exact ⟨p, h.readPut⟩
  · exact ⟨q, h⟩

theorem Inv.returnPending (h : Inv t s) (hidle : s.pc = .idle) (result : Bool) :
    Inv t { s with returned := some (.pending result) } := by
  obtain ⟨g, q, p, hc, hpc⟩ := h.counts
  refine ⟨⟨h.right.inOrder, ?_, h.right.cacheOverrun⟩,
    ⟨h.entries.number, h.entries.reserved, h.entries.notWriting, h.entries.notValid⟩,
    fun _ => hidle, g, q, p, ⟨hc.get, hc.cachedPut, hc.put, hc.reserve, hc.getLe, hc.consumedLe,
      hc.cachedLe, hc.putLe, hc.room⟩, hpc⟩
  intro before count after hret
  cases hret

theorem Inv.pending (h : Inv t s) (hidle : s.pc = .idle) : Inv t s.uvmReplayableFaultsPending := by
  unfold State.uvmReplayableFaultsPending
  split
  · exact h.returnPending hidle true
  split
  · exact h.returnPending hidle true
  obtain ⟨g, q, p, hc, hpc⟩ := h.counts
  unfold PcRight at hpc
  rw [hidle] at hpc
  refine ⟨⟨h.right.inOrder, ?_, h.right.cacheOverrun⟩,
    ⟨h.entries.number, h.entries.reserved, h.entries.notWriting, h.entries.notValid⟩,
    fun hsome => absurd rfl hsome, g, q, p, ⟨hc.get, hc.cachedPut, hc.put, hc.reserve, hc.getLe,
      hc.consumedLe, hc.cachedLe, hc.putLe, hc.room⟩, hpc⟩
  intro before count after hret
  cases hret

theorem Inv.fetch (h : Inv t s) (hidle : s.pc = .idle) (mode : FetchMode) :
    Inv t (s.fetchFaultBufferEntries mode) := by
  obtain ⟨g, q, p, hc, hpc⟩ := h.counts
  unfold PcRight at hpc
  rw [hidle] at hpc
  obtain ⟨hcached, hg⟩ := hpc
  obtain ⟨q', hc'⟩ := hc.choosePut (s.cachedGet = s.cachedPut)
  have hget : s.get < cfg.maxFaults := by
    rw [hc.get]
    exact slot_lt cfg.pos
  unfold State.fetchFaultBufferEntries
  dsimp only
  generalize (if s.cachedGet = s.cachedPut then s.put else s.cachedPut) = put at hc' ⊢
  split
  · -- there is nothing to fetch, and GET is not written
    refine ⟨⟨h.right.inOrder, ?_, h.right.cacheOverrun⟩,
      ⟨h.entries.number, h.entries.reserved, h.entries.notWriting, h.entries.notValid⟩,
      fun _ => hidle, g, q', p, ⟨hc'.get, hc'.cachedPut, hc'.put, hc'.reserve, hc'.getLe,
        hc'.consumedLe, hc'.cachedLe, hc'.putLe, hc'.room⟩, ?_⟩
    · intro before count after hret
      cases hret
      refine ⟨?_, fun j hj => absurd hj (Nat.not_lt_zero j)⟩
      rw [Nat.add_sub_cancel' hget.le, Nat.mod_self]
    · unfold PcRight
      rw [hidle]
      exact ⟨hcached, hg⟩
  · refine ⟨⟨h.right.inOrder, ?_, h.right.cacheOverrun⟩,
      ⟨h.entries.number, h.entries.reserved, h.entries.notWriting, h.entries.notValid⟩,
      fun hsome => absurd rfl hsome, g, q', p, ⟨hc'.get, hc'.cachedPut, hc'.put, hc'.reserve,
        hc'.getLe, hc'.consumedLe, hc'.cachedLe, hc'.putLe, hc'.room⟩, ?_⟩
    · intro before count after hret
      cases hret
    · exact ⟨hc.get, rfl, hg, hcached, hc'.cachedPut, fun j hj => absurd hj (Nat.not_lt_zero j)⟩

theorem Inv.flush (h : Inv t s) (hidle : s.pc = .idle) (mode : FlushMode) :
    Inv t (s.faultBufferFlushLocked mode) := by
  obtain ⟨g, q, p, hc, hpc⟩ := h.counts
  unfold PcRight at hpc
  rw [hidle] at hpc
  obtain ⟨hcached, -⟩ := hpc
  obtain ⟨q', hc'⟩ := hc.choosePut (mode = .updatePut)
  refine ⟨⟨h.right.inOrder, ?_, h.right.cacheOverrun⟩,
    ⟨h.entries.number, h.entries.reserved, h.entries.notWriting, h.entries.notValid⟩,
    fun hsome => absurd rfl hsome, g, q', p, ⟨hc'.get, hc'.cachedPut, hc'.put, hc'.reserve,
      hc'.getLe, hc'.consumedLe, hc'.cachedLe, hc'.putLe, hc'.room⟩, hcached, hc'.cachedPut⟩
  intro before count after hret
  cases hret

/-! ## The loops -/

theorem length_consume : (s.consume get).consumed.length = s.consumed.length + 1 := by
  rw [State.consume, List.length_append, List.length_singleton]

theorem Inv.returned_none (h : Inv t s) (hpc : s.pc ≠ .idle) : s.returned = none := by
  by_contra hsome
  exact hpc (h.idle hsome)

theorem Orderly.next (h : Inv t s) (hc : Counts cfg t.get s g q p) (hlt : s.consumed.length < q)
    (hvalid : s.valid (slot cfg.maxFaults t.get s.consumed.length) = true) :
    ∀ (k : ℕ) (c : Consumed),
      (s.consume (slot cfg.maxFaults t.get s.consumed.length)).consumed[k]? = some c →
        Orderly cfg t.get k c := by
  have hle := hc.getLe
  have hcached := hc.cachedLe
  have hput := hc.putLe
  have hroom := hc.room
  intro k c hk
  rcases Nat.lt_or_ge k s.consumed.length with hold | hnew
  · exact h.right.inOrder k c (by rwa [State.consume, List.getElem?_append_left hold] at hk)
  rw [State.consume, List.getElem?_append_right hnew, List.getElem?_singleton] at hk
  split at hk
  · next hlast =>
    obtain rfl : k = s.consumed.length := by omega
    cases hk
    refine ⟨h.entries.number _ le_rfl (by omega), rfl, hvalid, slot_lt cfg.pos, ?_⟩
    rw [hc.get, hc.put, dist_slot hle (by omega), dist_slot (by omega) (by omega)]
    omega
  · cases hk

theorem Counts.consume (h : Counts cfg base s g q p) (hlt : s.consumed.length < q) (get : ℕ) :
    Counts cfg base (s.consume get) g q p :=
  { get := h.get
    cachedPut := h.cachedPut
    put := h.put
    reserve := h.reserve
    getLe := by
      rw [length_consume]
      exact h.getLe.trans (Nat.le_succ _)
    consumedLe := by
      rw [length_consume]
      exact hlt
    cachedLe := h.cachedLe
    putLe := h.putLe
    room := h.room }

theorem Counts.consumed_lt (h : Counts cfg base s g q p)
    (hne : slot cfg.maxFaults base s.consumed.length ≠ slot cfg.maxFaults base q) :
    s.consumed.length < q := by
  rcases Nat.lt_or_eq_of_le h.consumedLe with hlt | heq
  · exact hlt
  · exact absurd (by rw [heq]) hne

theorem Cached.cacheEntry (cfg : Config) {i : ℕ} (h : Cached s i) (hle : i ≤ s.consumed.length) :
    Cached (s.cacheEntry cfg get i) (i + 1) := by
  intro j hj
  have hlen : (s.cacheEntry cfg get i).consumed.length = s.consumed.length + 1 := length_consume
  rw [hlen, show s.consumed.length + 1 - (i + 1) + j = s.consumed.length - i + j by omega]
  rcases Nat.lt_succ_iff_lt_or_eq.mp hj with hold | rfl
  · obtain ⟨c, hc, hparse⟩ := h j hold
    refine ⟨c, ?_, ?_⟩
    · rw [State.cacheEntry, State.consume, List.getElem?_append_left (by omega)]
      exact hc
    · show update s.faultCache i _ j = _
      rw [update_of_ne hold.ne]
      exact hparse
  · rw [show s.consumed.length - j + j = s.consumed.length by omega]
    exact ⟨_, List.getElem?_concat_length, update_self ..⟩

theorem Inv.fetchDone (h : Inv t s) {mode : FetchMode} {before i cachedFaults : ℕ}
    (hpc : s.pc = .fetching mode before i cachedFaults get put) :
    Inv t { s with cachedGet := get, pc := .fetched before cachedFaults } := by
  obtain ⟨g, q, p, hc, hright⟩ := h.counts
  unfold PcRight at hright
  rw [hpc] at hright
  obtain ⟨hbefore, rfl, hi, hget, -, hcache⟩ := hright
  have hnone : s.returned = none := h.returned_none (by simp [hpc])
  exact ⟨⟨h.right.inOrder, h.right.fetched, h.right.cacheOverrun⟩,
    ⟨h.entries.number, h.entries.reserved, h.entries.notWriting, h.entries.notValid⟩,
    fun hsome => absurd hnone hsome, g, q, p, ⟨hc.get, hc.cachedPut, hc.put, hc.reserve, hc.getLe,
      hc.consumedLe, hc.cachedLe, hc.putLe, hc.room⟩, hget, hbefore, hi, hcache⟩

theorem Inv.fetchTurn (h : Inv t s) {mode : FetchMode} {before i cachedFaults : ℕ}
    (hpc : s.pc = .fetching mode before i cachedFaults get put) :
    Inv t (s.fetchTurn cfg mode before i cachedFaults get put) := by
  unfold State.fetchTurn
  split
  · next hturn =>
    split
    · next hvalid =>
      obtain ⟨g, q, p, hc, hright⟩ := h.counts
      unfold PcRight at hright
      rw [hpc] at hright
      obtain ⟨hbefore, rfl, hi, rfl, rfl, hcache⟩ := hright
      have hlt := hc.consumed_lt hturn.1
      have hcached := hc.cachedLe
      have hput := hc.putLe
      have hroom := hc.room
      have hnone : s.returned = none := h.returned_none (by simp [hpc])
      have hc' := hc.consume hlt (slot cfg.maxFaults t.get s.consumed.length)
      have hents := h.entries.consume (by omega) (by omega) hvalid
      have hlen : (s.consume (slot cfg.maxFaults t.get s.consumed.length)).consumed.length =
          s.consumed.length + 1 := length_consume
      rw [← hlen] at hents
      refine ⟨⟨Orderly.next h hc hlt hvalid, ?_, ?_⟩,
        ⟨hents.number, hents.reserved, hents.notWriting, hents.notValid⟩,
        fun hsome => absurd hnone hsome, g, q, p, ⟨hc'.get, hc'.cachedPut, hc'.put, hc'.reserve,
          hc'.getLe, hc'.consumedLe, hc'.cachedLe, hc'.putLe, hc'.room⟩, ?_⟩
      · intro before' count after hret
        exact absurd (hnone.symm.trans hret) (by simp)
      · -- fewer entries than the ring has were consumed since the fetch began
        show (s.cacheOverrun || decide (cfg.maxFaults ≤ cachedFaults)) = false
        rw [h.right.cacheOverrun, Bool.false_or, decide_eq_false_iff_not]
        omega
      · refine ⟨hbefore, rfl, ?_, ?_, rfl, hcache.cacheEntry cfg (by omega)⟩
        · show g + (cachedFaults + 1) = (s.consume _).consumed.length
          omega
        · show advance cfg _ = slot cfg.maxFaults t.get (s.consume _).consumed.length
          rw [hlen]
          exact advance_slot
    · split
      · exact h.fetchDone hpc
      · exact h
  · exact h.fetchDone hpc

theorem Inv.flushTurn (h : Inv t s) (hpc : s.pc = .flushing get put) :
    Inv t (s.flushTurn cfg get put) := by
  obtain ⟨g, q, p, hc, hright⟩ := h.counts
  unfold PcRight at hright
  rw [hpc] at hright
  obtain ⟨rfl, rfl⟩ := hright
  have hnone : s.returned = none := h.returned_none (by simp [hpc])
  unfold State.flushTurn
  split
  · next hne =>
    split
    · next hvalid =>
      have hlt := hc.consumed_lt hne
      have hcached := hc.cachedLe
      have hput := hc.putLe
      have hroom := hc.room
      have hle := hc.getLe
      have hc' := hc.consume hlt (slot cfg.maxFaults t.get s.consumed.length)
      have hents := h.entries.consume (by omega) (by omega) hvalid
      have hlen : (s.consume (slot cfg.maxFaults t.get s.consumed.length)).consumed.length =
          s.consumed.length + 1 := length_consume
      rw [← hlen] at hents
      refine ⟨⟨Orderly.next h hc hlt hvalid, ?_, h.right.cacheOverrun⟩,
        ⟨hents.number, hents.reserved, hents.notWriting, hents.notValid⟩,
        fun hsome => absurd hnone hsome, g, q, p, ⟨hc'.get, hc'.cachedPut, hc'.put, hc'.reserve,
          hc'.getLe, hc'.consumedLe, hc'.cachedLe, hc'.putLe, hc'.room⟩, ?_, rfl⟩
      · intro before count after hret
        exact absurd (hnone.symm.trans hret) (by simp)
      · show advance cfg _ = slot cfg.maxFaults t.get (s.consume _).consumed.length
        rw [hlen]
        exact advance_slot
    · exact h
  · exact ⟨⟨h.right.inOrder, h.right.fetched, h.right.cacheOverrun⟩,
      ⟨h.entries.number, h.entries.reserved, h.entries.notWriting, h.entries.notValid⟩,
      fun hsome => absurd hnone hsome, g, q, p, ⟨hc.get, hc.cachedPut, hc.put, hc.reserve, hc.getLe,
        hc.consumedLe, hc.cachedLe, hc.putLe, hc.room⟩, rfl⟩

/-! ## The end of a call -/

theorem Counts.writeGet (h : Counts cfg base s g q p)
    (hcached : s.cachedGet = slot cfg.maxFaults base s.consumed.length) :
    Counts cfg base { s with get := s.cachedGet } s.consumed.length q p :=
  { get := hcached
    cachedPut := h.cachedPut
    put := h.put
    reserve := h.reserve
    getLe := le_rfl
    consumedLe := h.consumedLe
    cachedLe := h.cachedLe
    putLe := h.putLe
    room := by
      have hle := h.getLe
      have hroom := h.room
      dsimp only
      omega }

theorem Inv.resume (h : Inv t s) : Inv t (s.resume cfg) := by
  unfold State.resume
  split
  · exact h
  · next hpc =>
    obtain ⟨g, q, p, hc, hright⟩ := h.counts
    unfold PcRight at hright
    rw [hpc] at hright
    have hc' := hc.readPut
    refine ⟨⟨h.right.inOrder, ?_, h.right.cacheOverrun⟩,
      ⟨h.entries.number, h.entries.reserved, h.entries.notWriting, h.entries.notValid⟩,
      fun _ => rfl, g, p, p, ⟨hc'.get, hc'.cachedPut, hc'.put, hc'.reserve, hc'.getLe,
        hc'.consumedLe, hc'.cachedLe, hc'.putLe, hc'.room⟩, hright⟩
    intro before count after hret
    cases hret
  · next hpc => exact h.fetchTurn hpc
  · next before cachedFaults hpc =>
    obtain ⟨g, q, p, hc, hright⟩ := h.counts
    unfold PcRight at hright
    rw [hpc] at hright
    obtain ⟨hcached, hbefore, hi, hcache⟩ := hright
    have hc' := hc.writeGet hcached
    have hroom := hc.room
    have hconsumed := hc.consumedLe
    have hcachedLe := hc.cachedLe
    have hput := hc.putLe
    refine ⟨⟨h.right.inOrder, ?_, h.right.cacheOverrun⟩,
      ⟨h.entries.number, h.entries.reserved, h.entries.notWriting, h.entries.notValid⟩,
      fun _ => rfl, s.consumed.length, q, p, ⟨hc'.get, hc'.cachedPut, hc'.put, hc'.reserve,
        hc'.getLe, hc'.consumedLe, hc'.cachedLe, hc'.putLe, hc'.room⟩, hcached, rfl⟩
    intro before' count after hret
    cases hret
    refine ⟨?_, hcache⟩
    rw [hcached, hbefore, slot_distance (by omega) (by omega)]
    omega
  · next hpc => exact h.flushTurn hpc
  · next hpc =>
    obtain ⟨g, q, p, hc, hright⟩ := h.counts
    unfold PcRight at hright
    rw [hpc] at hright
    have hc' := hc.writeGet hright
    refine ⟨⟨h.right.inOrder, ?_, h.right.cacheOverrun⟩,
      ⟨h.entries.number, h.entries.reserved, h.entries.notWriting, h.entries.notValid⟩,
      fun _ => rfl, s.consumed.length, q, p, ⟨hc'.get, hc'.cachedPut, hc'.put, hc'.reserve,
        hc'.getLe, hc'.consumedLe, hc'.cachedLe, hc'.putLe, hc'.room⟩, hright, rfl⟩
    intro before count after hret
    cases hret

/-! ## Runs -/

theorem Inv.step (h : Inv t s) (op : Op) : Inv t (FaultBuffer.step cfg s op) := by
  cases op with
  | reserve => exact h.reserveEntry
  | write index fault => exact h.writeEntry index fault
  | advancePut => exact h.advancePut
  | pending =>
    unfold FaultBuffer.step
    dsimp only
    split
    · next hidle => exact h.pending hidle
    · exact h
  | fetch mode =>
    unfold FaultBuffer.step
    dsimp only
    split
    · next hidle => exact h.fetch hidle mode
    · exact h
  | flush mode =>
    unfold FaultBuffer.step
    dsimp only
    split
    · next hidle => exact h.flush hidle mode
    · exact h
  | resume => exact h.resume

/-- **The fault buffer is consumed right**, wherever its registers were when it was taken over and
whatever steps the GPU takes between those of the driver. -/
theorem consumption_right (t : Taken cfg) (ops : List Op) :
    Right t (run (step cfg) (State.taken t) ops) :=
  (run_inv (step cfg) (Inv.taken t) (fun _ op h => h.step op) ops).right

-- two of the three entries from slot 3 on are fetched, the second behind the end of the ring
example :
    let fault : RawFault := ⟨0x12345, .read, .invalidPte, 0⟩
    let t : Taken ⟨4, 2, by decide⟩ :=
      { get := 3, put := 2, reserve := 2, valid := fun i => i == 3, entry := fun _ => fault
        faultCache := fun _ => parseEntry fault, getLt := by decide, putLt := by decide
        reserveLt := by decide, putLe := by decide }
    let s := run (step ⟨4, 2, by decide⟩) (State.taken t)
      [.fetch .batchAll, .resume, .resume, .write 1 fault, .write 0 fault, .resume, .resume, .resume]
    s.consumed.map Consumed.number = [0, 1] ∧ s.consumed.map Consumed.index = [3, 0] ∧ s.get = 1 := by
  decide

end NvUvm.FaultBuffer
