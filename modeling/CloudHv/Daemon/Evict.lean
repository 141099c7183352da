import CloudHv.Daemon.Rules
import Mathlib.Data.Finset.Max

/-!
# Evict — which snapshots the cache gives up

A shadow run that has made its snapshot first evicts least recently used entries while the cache is
full, and then inserts its own.  The loop counts an old entry of the same key, which the insertion
replaces: when the cache is full and has the key, one entry too many goes, unless it is the old entry
itself.  The last use of an entry is written down along a run, from its insertion and from every
`get_snapshot_dir`.
-/

namespace CloudHv.Daemon

open Conc

/-! ### The loop -/

abbrev Cache := Finmap (fun _ : String => SnapshotEntry)

theorem leastUsed_iff {m : Cache} {k : String} : leastUsed m k = true ↔
    ∃ e, m.lookup k = some e ∧ ∀ k' e', m.lookup k' = some e' → e.lastUsed ≤ e'.lastUsed := by
  unfold leastUsed
  split
  · next hn =>
    constructor
    · intro h
      cases h
    · rintro ⟨e, he, -⟩
      rw [hn] at he
      cases he
  · next e he =>
    rw [decide_eq_true_eq]
    constructor
    · intro h
      refine ⟨e, he, fun k' e' hk' => ?_⟩
      have hle := h k' (Finmap.mem_keys.mpr (Finmap.mem_of_lookup hk'))
      rw [hk', Option.map_some, Option.some.injEq, decide_eq_true_eq] at hle
      exact hle
    · rintro ⟨e', he', hall⟩ k' hk'
      obtain rfl := Option.some.inj (he.symm.trans he')
      obtain ⟨d, hd⟩ := Finmap.mem_iff.mp (Finmap.mem_keys.mp hk')
      rw [hd, Option.map_some, decide_eq_true (hall k' d hd)]

/-- A cache that is not empty has a least recently used entry. -/
theorem exists_leastUsed {m : Cache} (h : m.keys.card ≠ 0) : ∃ k, leastUsed m k = true := by
  have hne : m.keys.Nonempty := Finset.card_ne_zero.mp h
  obtain ⟨k, hk, hmin⟩ := Finset.exists_min_image m.keys (fun k => ((m.lookup k).map (·.lastUsed)).getD 0) hne
  obtain ⟨e, he⟩ := Finmap.mem_iff.mp (Finmap.mem_keys.mp hk)
  refine ⟨k, leastUsed_iff.mpr ⟨e, he, fun k' e' hk' => ?_⟩⟩
  have hle := hmin k' (Finmap.mem_keys.mpr (Finmap.mem_of_lookup hk'))
  rwa [he, hk'] at hle

theorem card_erase_of_lookup {m : Cache} {k : String} {e : SnapshotEntry} (h : m.lookup k = some e) :
    (m.erase k).keys.card + 1 = m.keys.card := by
  rw [Finmap.keys_erase]
  exact Finset.card_erase_add_one (Finmap.mem_keys.mpr (Finmap.mem_of_lookup h))

variable {max : ℕ} {m m' : Cache}

/-- With room in the cache, the loop does nothing. -/
theorem evict_room {ks : List String} {dirs : List Path} (hroom : m.keys.card < max)
    (h : evict max ks m = some (m', dirs)) : m' = m := by
  cases ks with
  | nil =>
    simp only [evict, if_pos (.inl hroom : m.keys.card < max ∨ m.keys.card = 0)] at h
    exact (Prod.mk.inj (Option.some.inj h)).1.symm
  | cons k ks =>
    simp only [evict, if_pos hroom] at h
    cases h

/-- In a cache that is at most full, the loop goes round once if it is full. -/
theorem evict_cases {ks : List String} {dirs : List Path} (hmax : 1 ≤ max) (hcard : m.keys.card ≤ max)
    (h : evict max ks m = some (m', dirs)) :
    (m.keys.card < max ∧ m' = m) ∨ (m.keys.card = max ∧ ∃ k, leastUsed m k = true ∧ m' = m.erase k) := by
  by_cases hroom : m.keys.card < max
  · exact .inl ⟨hroom, evict_room hroom h⟩
  · have hfull : m.keys.card = max := by omega
    refine .inr ⟨hfull, ?_⟩
    cases ks with
    | nil =>
      simp only [evict] at h
      split at h
      · omega
      · cases h
    | cons k ks =>
      simp only [evict, if_neg hroom] at h
      split at h
      · next hlu =>
        split at h
        · next e m'' dirs' he hev =>
          have hlt : (m.erase k).keys.card < max := by
            have := card_erase_of_lookup he
            omega
          obtain ⟨rfl, -⟩ := Prod.mk.inj (Option.some.inj h)
          exact ⟨k, hlu, evict_room hlt hev⟩
        · cases h
      · cases h

/-- The loop can evict any least recently used entry of a full cache. -/
theorem evict_full {k : String} {e : SnapshotEntry} (hfull : m.keys.card = max) (he : m.lookup k = some e)
    (hlu : leastUsed m k = true) : evict max [k] m = some (m.erase k, [e.dir]) := by
  have hlt : (m.erase k).keys.card < max := by
    have := card_erase_of_lookup he
    omega
  simp only [evict, if_neg (by omega : ¬ m.keys.card < max), if_pos hlu, he,
    if_pos (.inl hlt : (m.erase k).keys.card < max ∨ (m.erase k).keys.card = 0)]

/-! ### Last use -/

/-- When an entry was last used, by key. -/
abbrev LastUse := String → ℕ

/-- Write down the insertions and the uses of entries, by the clock. -/
def noteUse (u : LastUse) (_ : DaemonConf) : Event Action Answer Task → World → LastUse
  | .act _ (.snap (.getSnapshotDir key)) (some _), w => Function.update u key w.snapshots.clock
  | .act _ (.snap (.cacheSnapshot key _ _)) _, w => Function.update u key w.snapshots.clock
  | _, _ => u

/-- The entries have the time of their last use, and the cache is at most full. -/
structure UseInv (max : ℕ) (u : LastUse) (s : Snapshots) : Prop where
  used : ∀ k e, s.entries.lookup k = some e → e.lastUsed = u k
  bound : s.entries.keys.card ≤ max

/-- The entries of a cache into which one with the time `now` was put. -/
theorem used_insert {u : LastUse} {now : ℕ} {key : String} {e : SnapshotEntry} (he : e.lastUsed = now)
    (h : ∀ k e, m.lookup k = some e → e.lastUsed = u k) :
    ∀ k e', (m.insert key e).lookup k = some e' → e'.lastUsed = Function.update u key now k := by
  intro k e' hk
  rw [Finmap.lookup_insert_eq] at hk
  by_cases hkey : k = key
  · subst hkey
    rw [if_pos rfl] at hk
    rw [Function.update_self, ← Option.some.inj hk, he]
  · rw [if_neg hkey] at hk
    rw [Function.update_of_ne hkey, h k e' hk]

theorem used_erase {u : LastUse} {key : String} (h : ∀ k e, m.lookup k = some e → e.lastUsed = u k) :
    ∀ k e, (m.erase key).lookup k = some e → e.lastUsed = u k := by
  intro k e hk
  exact h k e (Finmap.lookup_of_erase hk).2

/-- What the caching step does to the entries. -/
theorem cache_step {E : Env} {w w' : World} {key : String} {dir : Path} {mtime : Option ℕ} {c : Choice}
    {r : Unit} (hp : perform E w (.snap (.cacheSnapshot key dir mtime)) c = some (r, w')) :
    ∃ m' dirs, evict E.cfg.maxSnapshots c.keys w.snapshots.entries = some (m', dirs) ∧
      w'.snapshots.entries = m'.insert key ⟨dir, w'.snapshots.clock, mtime⟩ := by
  obtain ⟨s, dirs, hs, rfl⟩ := perform_snap hp
  simp only [Snapshots.perform] at hs
  split at hs
  · cases hs
  · next m' dirs' hev =>
    obtain ⟨rfl, -⟩ := Prod.mk.inj (Prod.mk.inj (Option.some.inj hs)).2
    exact ⟨m', dirs', hev, rfl⟩

/-- `has_snapshot` at most takes its entry out. -/
theorem has_step {E : Env} {w w' : World} {key : String} {erofs : Option String} {c : Choice}
    {r : Bool × Option ℕ} (hp : perform E w (.snap (.hasSnapshot key erofs)) c = some (r, w')) :
    w'.snapshots.entries = w.snapshots.entries ∨ w'.snapshots.entries = w.snapshots.entries.erase key := by
  obtain ⟨s, dirs, hs, rfl⟩ := perform_snap hp
  simp only [Snapshots.perform] at hs
  split at hs
  · obtain ⟨rfl, -⟩ := Prod.mk.inj (Prod.mk.inj (Option.some.inj hs)).2
    exact .inl rfl
  · split at hs
    · obtain ⟨rfl, -⟩ := Prod.mk.inj (Prod.mk.inj (Option.some.inj hs)).2
      exact .inr rfl
    · obtain ⟨rfl, -⟩ := Prod.mk.inj (Prod.mk.inj (Option.some.inj hs)).2
      exact .inl rfl

/-- `get_snapshot_dir` sets the time of the entry it finds. -/
theorem get_step {E : Env} {w w' : World} {key : String} {c : Choice} {r : Option Path}
    (hp : perform E w (.snap (.getSnapshotDir key)) c = some (r, w')) :
    (r = none ∧ w'.snapshots.entries = w.snapshots.entries) ∨
      ∃ e, w.snapshots.entries.lookup key = some e ∧ r = some e.dir ∧
        w'.snapshots.entries = w.snapshots.entries.insert key { e with lastUsed := w'.snapshots.clock } := by
  obtain ⟨s, dirs, hs, rfl⟩ := perform_snap hp
  simp only [Snapshots.perform] at hs
  split at hs
  · obtain ⟨rfl, hs'⟩ := Prod.mk.inj (Option.some.inj hs)
    obtain ⟨rfl, -⟩ := Prod.mk.inj hs'
    exact .inl ⟨rfl, rfl⟩
  · next e he =>
    obtain ⟨rfl, hs'⟩ := Prod.mk.inj (Option.some.inj hs)
    obtain ⟨rfl, -⟩ := Prod.mk.inj hs'
    exact .inr ⟨e, he, rfl, rfl⟩

theorem useInv_step {E : Env} {u : LastUse} {x : DaemonConf} {w' : World} {i : ℕ} {a : Action} {c : Choice}
    {r : Answer a} (hmax : 1 ≤ E.cfg.maxSnapshots) (h : UseInv E.cfg.maxSnapshots u x.shared.snapshots)
    (hp : perform E x.shared a c = some (r, w')) :
    UseInv E.cfg.maxSnapshots (noteUse u x (.act i a r) w') w'.snapshots := by
  cases a with
  | snap b =>
    cases b with
    | cacheSnapshot key dir mtime =>
      obtain ⟨m', dirs, hev, hent⟩ := cache_step hp
      have hle := Finset.card_insert_le key m'.keys
      rcases evict_cases hmax h.bound hev with ⟨hlt, rfl⟩ | ⟨hfull, k, hlu, rfl⟩
      · refine ⟨?_, ?_⟩
        · rw [hent]
          exact used_insert rfl h.used
        · rw [hent, Finmap.keys_insert]
          omega
      · obtain ⟨e, he, -⟩ := leastUsed_iff.mp hlu
        have hcard := card_erase_of_lookup he
        refine ⟨?_, ?_⟩
        · rw [hent]
          exact used_insert rfl (used_erase h.used)
        · rw [hent, Finmap.keys_insert]
          omega
    | hasSnapshot key erofs =>
      rcases has_step hp with hent | hent
      · exact ⟨hent ▸ h.used, hent ▸ h.bound⟩
      · refine ⟨hent ▸ used_erase h.used, ?_⟩
        rw [hent, Finmap.keys_erase]
        exact (Finset.card_erase_le).trans h.bound
    | getSnapshotDir key =>
      rcases get_step hp with ⟨rfl, hent⟩ | ⟨e, he, rfl, hent⟩
      · exact ⟨hent ▸ h.used, hent ▸ h.bound⟩
      · refine ⟨hent ▸ used_insert rfl h.used, ?_⟩
        rw [hent, Finmap.keys_insert, Finset.insert_eq_of_mem (Finmap.mem_keys.mpr (Finmap.mem_of_lookup he))]
        exact h.bound
    | shadowsContains key | shadowsInsert key | shadowsRemove key | shadowCount | snapshotKeys =>
      obtain ⟨s, dirs, hs, rfl⟩ := perform_snap hp
      obtain ⟨rfl, -⟩ := Prod.mk.inj (Prod.mk.inj (Option.some.inj hs)).2
      exact ⟨h.used, h.bound⟩
  | _ =>
    have hs := snapshots_frame hp fun b he => by cases he
    rw [hs]
    exact h

theorem use_inv {E : Env} {h : Host} {u : LastUse} {x : DaemonConf} (hmax : 1 ≤ E.cfg.maxSnapshots)
    (hh : (daemon E).Hist noteUse (fun _ _ _ => True) (fun _ => 0) (boot E h) u x) :
    UseInv E.cfg.maxSnapshots u x.shared.snapshots := by
  refine System.Hist.shared (fun u w => UseInv E.cfg.maxSnapshots u w.snapshots) ?_ (fun _ _ _ hI _ => hI)
    (fun u x i a c r w' hI hp _ => useInv_step hmax hI hp) hh
  refine ⟨fun k e hk => ?_, Nat.zero_le _⟩
  simp only [boot, System.init, World.start, Snapshots.new, Finmap.lookup_empty] at hk
  cases hk

/-! ### The caching step -/

/-- The entry `e` came into the cache under `key`: it is there, the cache is within its bound, the other
entries that are left are as they were, no more of them went than had to, and those that went were used
no later than those that are left. -/
structure Replaces (max : ℕ) (u : LastUse) (key : String) (e : SnapshotEntry) (m m' : Cache) : Prop where
  entered : m'.lookup key = some e
  bounded : m'.keys.card ≤ max
  kept : ∀ k ∈ m'.keys, k ≠ key → m'.lookup k = m.lookup k
  count : (m.keys.erase key \ m'.keys).card = (m.keys.erase key).card + 1 - max
  order : ∀ k ∈ m.keys.erase key \ m'.keys, ∀ k' ∈ m'.keys, k' ≠ key → u k ≤ u k'

/-- The caching step for `key` comes to its end, and however it does, it replaces as it should. -/
def CachesWell (E : Env) (u : LastUse) (w : World) (key : String) (dir : Path) (mtime : Option ℕ) : Prop :=
  (∃ c r w', perform E w (.snap (.cacheSnapshot key dir mtime)) c = some (r, w')) ∧
  ∀ c r w', perform E w (.snap (.cacheSnapshot key dir mtime)) c = some (r, w') →
    Replaces E.cfg.maxSnapshots u key ⟨dir, w'.snapshots.clock, mtime⟩ w.snapshots.entries w'.snapshots.entries

theorem cache_possible {E : Env} {w : World} {m' : Cache} {dirs : List Path} {ks : List String}
    (hev : evict E.cfg.maxSnapshots ks w.snapshots.entries = some (m', dirs)) (key : String) (dir : Path)
    (mtime : Option ℕ) :
    ∃ c r w', perform E w (.snap (.cacheSnapshot key dir mtime)) c = some (r, w') ∧ c.keys = ks := by
  cases hp : perform E w (.snap (.cacheSnapshot key dir mtime)) { Choice.fine 0 with keys := ks } with
  | none =>
    simp only [perform, Snapshots.perform, hev, Option.map_some] at hp
    cases hp
  | some q => exact ⟨_, q.1, q.2, hp, rfl⟩

variable {u : LastUse} {key : String} {e : SnapshotEntry}

/-- Nothing was evicted, and there was room. -/
theorem Replaces.room (hroom : m.keys.card < max) : Replaces max u key e m (m.insert key e) := by
  have hsub : m.keys.erase key \ (m.insert key e).keys = ∅ := by
    rw [Finset.sdiff_eq_empty_iff_subset, Finmap.keys_insert]
    exact (Finset.erase_subset _ _).trans (Finset.subset_insert _ _)
  refine ⟨Finmap.lookup_insert _, ?_, fun k _ hk => Finmap.lookup_insert_of_ne _ hk, ?_, ?_⟩
  · rw [Finmap.keys_insert]
    have := Finset.card_insert_le key m.keys
    omega
  · have hle : (m.keys.erase key).card ≤ m.keys.card := Finset.card_erase_le
    rw [hsub, Finset.card_empty]
    omega
  · rw [hsub]
    exact fun k hk => absurd hk (Finset.notMem_empty k)

/-- One entry was evicted: the old one of the key, or one that had to go. -/
theorem Replaces.full {k : String} (hfull : m.keys.card = max) (hlu : leastUsed m k = true)
    (hused : ∀ k e, m.lookup k = some e → e.lastUsed = u k) (hk : k = key ∨ key ∉ m) :
    Replaces max u key e m ((m.erase k).insert key e) := by
  obtain ⟨d, hd, hmin⟩ := leastUsed_iff.mp hlu
  have hcard := card_erase_of_lookup hd
  have hkm : k ∈ m.keys := Finmap.mem_keys.mpr (Finmap.mem_of_lookup hd)
  -- what goes is `k`, unless it is the key's own entry
  have hgone : m.keys.erase key \ ((m.erase k).insert key e).keys = if k = key then ∅ else {k} := by
    ext k'
    rw [Finset.mem_sdiff, Finset.mem_erase, Finmap.keys_insert, Finset.mem_insert, Finmap.keys_erase,
      Finset.mem_erase]
    by_cases hkk : k = key
    · rw [if_pos hkk]
      subst hkk
      simp only [Finset.notMem_empty, iff_false]
      tauto
    · rw [if_neg hkk, Finset.mem_singleton]
      constructor
      · rintro ⟨⟨hne, hin⟩, hout⟩
        by_contra hne'
        exact hout (.inr ⟨hne', hin⟩)
      · rintro rfl
        exact ⟨⟨hkk, hkm⟩, by tauto⟩
  refine ⟨Finmap.lookup_insert _, ?_, fun k' hk' hne => ?_, ?_, fun k' hk' k'' hk'' hne => ?_⟩
  · rw [Finmap.keys_insert]
    have := Finset.card_insert_le key (m.erase k).keys
    omega
  · rw [Finmap.keys_insert, Finset.mem_insert, Finmap.keys_erase, Finset.mem_erase] at hk'
    rw [Finmap.lookup_insert_of_ne _ hne, Finmap.lookup_erase_ne (hk'.resolve_left hne).1]
  · rw [hgone]
    rcases hk with rfl | hk
    · have hers := Finset.card_erase_add_one hkm
      rw [if_pos rfl, Finset.card_empty]
      omega
    · have hkey : key ∉ m.keys := fun hin => hk (Finmap.mem_keys.mp hin)
      have hne : k ≠ key := by
        rintro rfl
        exact hkey hkm
      rw [if_neg hne, Finset.card_singleton, Finset.erase_eq_of_notMem hkey]
      omega
  · rw [hgone] at hk'
    rw [Finmap.keys_insert, Finset.mem_insert, Finmap.keys_erase, Finset.mem_erase] at hk''
    obtain ⟨d'', hd''⟩ := Finmap.mem_iff.mp (Finmap.mem_keys.mp (hk''.resolve_left hne).2)
    split at hk'
    · exact absurd hk' (Finset.notMem_empty k')
    · obtain rfl := Finset.mem_singleton.mp hk'
      rw [← hused k' d hd, ← hused k'' d'' hd'']
      exact hmin k'' d'' hd''

/-- Another entry than the key's own was evicted, though none had to. -/
theorem not_replaces {k : String} (hfull : m.keys.card = max) (hkey : key ∈ m) (hk : k ∈ m) (hne : k ≠ key) :
    ¬ Replaces max u key e m ((m.erase k).insert key e) := by
  intro h
  have hmem : k ∈ m.keys.erase key \ ((m.erase k).insert key e).keys := by
    rw [Finset.mem_sdiff, Finset.mem_erase, Finmap.keys_insert, Finset.mem_insert, Finmap.keys_erase,
      Finset.mem_erase]
    exact ⟨⟨hne, Finmap.mem_keys.mpr hk⟩, by tauto⟩
  have hpos := Finset.card_pos.mpr ⟨k, hmem⟩
  have hcount := h.count
  have hers := Finset.card_erase_add_one (Finmap.mem_keys.mpr hkey)
  omega

variable {E : Env} {h : Host} {x : DaemonConf} {dir : Path} {mtime : Option ℕ}

/-- A full cache that has the key, and another entry that was not used later than the key's. -/
theorem not_cachesWell (hmax : 1 ≤ E.cfg.maxSnapshots) (hI : UseInv E.cfg.maxSnapshots u x.shared.snapshots)
    (hkey : key ∈ x.shared.snapshots.entries)
    (hfull : ¬ x.shared.snapshots.entries.keys.card < E.cfg.maxSnapshots) {k : String}
    (hk : k ∈ x.shared.snapshots.entries.keys.erase key) (hle : u k ≤ u key) :
    ¬ CachesWell E u x.shared key dir mtime := by
  rintro ⟨-, hall⟩
  have hbound := hI.bound
  have hcard : x.shared.snapshots.entries.keys.card = E.cfg.maxSnapshots := by omega
  -- some other entry than the key's is a least recently used one
  obtain ⟨k', hlu, hne⟩ : ∃ k', leastUsed x.shared.snapshots.entries k' = true ∧ k' ≠ key := by
    obtain ⟨k₀, hlu⟩ := exists_leastUsed (m := x.shared.snapshots.entries) (by omega)
    by_cases hk₀ : k₀ = key
    · subst hk₀
      rw [Finset.mem_erase] at hk
      obtain ⟨e₀, he₀, hmin⟩ := leastUsed_iff.mp hlu
      obtain ⟨d, hd⟩ := Finmap.mem_iff.mp (Finmap.mem_keys.mp hk.2)
      refine ⟨k, leastUsed_iff.mpr ⟨d, hd, fun k' e' hk' => ?_⟩, hk.1⟩
      calc d.lastUsed = u k := hI.used k d hd
        _ ≤ u k₀ := hle
        _ = e₀.lastUsed := (hI.used k₀ e₀ he₀).symm
        _ ≤ e'.lastUsed := hmin k' e' hk'
    · exact ⟨k₀, hlu, hk₀⟩
  obtain ⟨d, hd, -⟩ := leastUsed_iff.mp hlu
  have hev := evict_full hcard hd hlu
  obtain ⟨c, r, w', hp, hc⟩ := cache_possible hev key dir mtime
  obtain ⟨m', dirs, hev', hent⟩ := cache_step hp
  rw [hc, hev] at hev'
  obtain ⟨rfl, -⟩ := Prod.mk.inj (Option.some.inj hev')
  have hrep := hall c r w' hp
  rw [hent] at hrep
  exact not_replaces hcard hkey (Finmap.mem_of_lookup hd) hne hrep

theorem cachesWell_of (hmax : 1 ≤ E.cfg.maxSnapshots) (hI : UseInv E.cfg.maxSnapshots u x.shared.snapshots)
    (hcond : key ∉ x.shared.snapshots.entries ∨ x.shared.snapshots.entries.keys.card < E.cfg.maxSnapshots ∨
      ∀ k ∈ x.shared.snapshots.entries.keys.erase key, u key < u k) :
    CachesWell E u x.shared key dir mtime := by
  have hbound := hI.bound
  refine ⟨?_, fun c r w' hp => ?_⟩
  · by_cases hroom : x.shared.snapshots.entries.keys.card < E.cfg.maxSnapshots
    · have hev : evict E.cfg.maxSnapshots [] x.shared.snapshots.entries =
          some (x.shared.snapshots.entries, []) := if_pos (.inl hroom)
      obtain ⟨c, r, w', hp, -⟩ := cache_possible hev key dir mtime
      exact ⟨c, r, w', hp⟩
    · obtain ⟨k, hlu⟩ := exists_leastUsed (m := x.shared.snapshots.entries) (by omega)
      obtain ⟨d, hd, -⟩ := leastUsed_iff.mp hlu
      have hfull : x.shared.snapshots.entries.keys.card = E.cfg.maxSnapshots := by omega
      have hev := evict_full hfull hd hlu
      obtain ⟨c, r, w', hp, -⟩ := cache_possible hev key dir mtime
      exact ⟨c, r, w', hp⟩
  · obtain ⟨m', dirs, hev, hent⟩ := cache_step hp
    rw [hent]
    rcases evict_cases hmax hbound hev with ⟨hroom, rfl⟩ | ⟨hfull, k, hlu, rfl⟩
    · exact Replaces.room hroom
    · refine Replaces.full hfull hlu hI.used ?_
      rcases hcond with hkey | hroom | hlate
      · exact .inr hkey
      · omega
      · refine or_iff_not_imp_left.mpr fun hne hkey => ?_
        obtain ⟨d, hd, hmin⟩ := leastUsed_iff.mp hlu
        obtain ⟨d', hd'⟩ := Finmap.mem_iff.mp hkey
        have hlt := hlate k (Finset.mem_erase.mpr ⟨hne, Finmap.mem_keys.mpr (Finmap.mem_of_lookup hd)⟩)
        have hle := hmin key d' hd'
        rw [hI.used k d hd, hI.used key d' hd'] at hle
        omega

/-- **The cache gives up what it has to.**  For every content of the cache that the daemon can reach and
every key, the caching step evicts as it should if and only if the key is not in the cache, or the cache
is not full, or every other entry was used later than the key's. -/
theorem caching_evicts_iff (hmax : 1 ≤ E.cfg.maxSnapshots)
    (hh : (daemon E).Hist noteUse (fun _ _ _ => True) (fun _ => 0) (boot E h) u x) (key : String) (dir : Path)
    (mtime : Option ℕ) : CachesWell E u x.shared key dir mtime ↔
      (key ∉ x.shared.snapshots.entries ∨ x.shared.snapshots.entries.keys.card < E.cfg.maxSnapshots ∨
        ∀ k ∈ x.shared.snapshots.entries.keys.erase key, u key < u k) := by
  have hI := use_inv hmax hh
  constructor
  · intro hwell
    by_contra hcon
    push Not at hcon
    obtain ⟨hkey, hroom, k, hk, hle⟩ := hcon
    exact not_cachesWell hmax hI hkey (Nat.not_lt.mpr hroom) hk hle hwell
  · exact cachesWell_of hmax hI

/-! ### A full cache -/

/-- A daemon with a pool of four and room for two snapshots. -/
def cacheOfTwo : Env :=
  ⟨{ poolSize := 4, maxSnapshots := 2, rootfsPath := "/rootfs", stateDir := "/s" }, 7, fun _ => none⟩

def acquireKeyed (key : String) : Task := .request (.acquireSandbox ⟨"", key, "/img/" ++ key, "", ""⟩)

/-- Snapshots of `db` and then of `web` are made and cached. -/
def twoCached : List (Label Choice Task) :=
  steps 0 12 100 ++ steps 0 11 101 ++ steps 0 11 102 ++ steps 0 12 103 ++ [.arrive (acquireKeyed "db")] ++
    steps 1 10 0 ++ steps 3 14 200 ++ [.arrive (acquireKeyed "web")] ++ steps 4 10 0 ++ steps 6 14 201

theorem exists_twoCached : ∃ u x, (daemon cacheOfTwo).Hist noteUse (fun _ _ _ => True) (fun _ => 0)
    (boot cacheOfTwo (Host.withBase cacheOfTwo)) u x ∧ x.shared.snapshots.entries.keys = {"db", "web"} ∧
    u "db" = 1 ∧ u "web" = 2 := by
  have hrun : ((daemon cacheOfTwo).execHist noteUse (fun _ _ _ => true) (fun _ => 0)
      (boot cacheOfTwo (Host.withBase cacheOfTwo)) twoCached).any (fun q =>
        decide (q.2.shared.snapshots.entries.keys = {"db", "web"} ∧ q.1 "db" = 1 ∧ q.1 "web" = 2)) = true := by
    decide +kernel
  obtain ⟨u, x, hx, hP⟩ := System.exists_hist hrun
  exact ⟨u, x, hx.mono fun _ _ _ _ => trivial, of_decide_eq_true hP⟩

/-- The snapshot of `db`, the least recently used, is made again: its old entry goes. -/
theorem caching_evicts_own : ∃ u x, (daemon cacheOfTwo).Hist noteUse (fun _ _ _ => True) (fun _ => 0)
    (boot cacheOfTwo (Host.withBase cacheOfTwo)) u x ∧ x.shared.snapshots.entries.keys = {"db", "web"} ∧
    CachesWell cacheOfTwo u x.shared "db" [] none := by
  obtain ⟨u, x, hx, hkeys, hdb, hweb⟩ := exists_twoCached
  refine ⟨u, x, hx, hkeys, (caching_evicts_iff (by decide) hx "db" [] none).mpr (.inr (.inr fun k hk => ?_))⟩
  rw [hkeys] at hk
  obtain rfl : k = "web" := by simpa using hk
  omega

/-- The snapshot of `web` is made again: the one of `db` goes, though the cache keeps its size. -/
theorem caching_evicts_other : ¬ ∀ (E : Env) (h : Host) (u : LastUse) (x : DaemonConf),
    1 ≤ E.cfg.maxSnapshots →
    (daemon E).Hist noteUse (fun _ _ _ => True) (fun _ => 0) (boot E h) u x →
    ∀ key dir mtime, CachesWell E u x.shared key dir mtime := by
  intro hall
  obtain ⟨u, x, hx, hkeys, hdb, hweb⟩ := exists_twoCached
  have hmax : 1 ≤ cacheOfTwo.cfg.maxSnapshots := by decide
  have hmem : "web" ∈ x.shared.snapshots.entries := by
    rw [← Finmap.mem_keys, hkeys]
    decide
  refine not_cachesWell (k := "db") hmax (use_inv hmax hx) hmem ?_ ?_ (by omega)
    (hall cacheOfTwo _ u x hmax hx "web" [] none)
  · rw [hkeys]
    decide
  · rw [hkeys]
    decide

end CloudHv.Daemon
