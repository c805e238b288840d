import OortAgent.Cache

/-!
# Calls of a cache

The public calls of `Cache.h` one after the other, at clock readings that never go back. `get` is put together from the
parts of `Cache.lean`; `log` keeps what the fetches returned and when they began.

* `find_spec`: what `get` has done when it knows whether it hits.
* `cache_get_fresh`: a value that `get` returns was fetched for its key no more than the time to live ago.
* `cache_entries_recent`: no entry gets older than twice the time to live.
-/

namespace OortAgent

open Lib (Str)

/-- What `get` does: a hit, a value from the wrapped function, its exception, or a failing `at`. -/
inductive Answer (ε T : Type)
  | hit (v : T)
  | fetched (v : T)
  | threw (e : ε)
  | outOfRange
  deriving DecidableEq

/-- The value that `get` returns. -/
def Answer.value? {ε T : Type} : Answer ε T → Option T
  | .hit v => some v
  | .fetched v => some v
  | _ => none

/-- A call of a cache. For `get`: the clock readings, the time at which the wrapped function is called, if it is,
and what it does then. -/
inductive CacheCall (ε T : Type)
  | get (key : Str) (ticks : Nat → Int) (start : Int) (fetch : Except ε T)
  | flush (now : Int)
  | cleanExpired (now : Int)
  | enable
  | disable

namespace Cache

variable {ε T : Type}

/-- A new cache. -/
def init (ttl : Nat) (now : Int) : Cache T := { ttl := ttl, lastCleaned := now }

/-- `get`, where the wrapped function does `fetch` if it is called. -/
def get (c : Cache T) (ticks : Nat → Int) (key : Str) (fetch : Except ε T) : Cache T × Answer ε T :=
  if ¬ c.enabled then match fetch with
    | .ok v => (c, .fetched v)
    | .error e => (c, .threw e)
  else match c.find ticks key with
    | (c', .inl v) => (c', .hit v)
    | (c', .inr now) => match fetch with
      | .error e => (c', .threw e)
      | .ok v => (c'.emplace key now v, match (c'.emplace key now v).valueAt key with
        | some v => .fetched v
        | none => .outOfRange)

/-- `flush`, at the clock reading `now`. -/
def flush (c : Cache T) (now : Int) : Cache T := { c with contents := ∅, lastCleaned := now }

/-- The cache after a call. -/
def apply (c : Cache T) : CacheCall ε T → Cache T
  | .get key ticks _ fetch => (c.get ticks key fetch).1
  | .flush now => c.flush now
  | .cleanExpired now => c.cleanExpired now
  | .enable => { c with enabled := true }
  | .disable => { c with enabled := false }

/-- The cache after some calls. -/
def run (c : Cache T) (calls : List (CacheCall ε T)) : Cache T := calls.foldl apply c

/-- What a call fetches: the key, when the wrapped function was called, and the value it returned. -/
def fetches (c : Cache T) : CacheCall ε T → List (Str × Int × T)
  | .get key ticks start fetch => match (c.get ticks key fetch).2, fetch with
    | .hit _, _ => []
    | _, .ok v => [(key, start, v)]
    | _, .error _ => []
  | _ => []

/-- What some calls fetch. -/
def log : Cache T → List (CacheCall ε T) → List (Str × Int × T)
  | _, [] => []
  | c, call :: calls => c.fetches call ++ (c.apply call).log calls

/-- The clock readings of the calls never go back, from `t` on. A reading that a call does not make may stand for
the one before it. -/
def Clocked : Int → List (CacheCall ε T) → Prop
  | _, [] => True
  | t, .get _ ticks start _ :: calls => t ≤ ticks 0 ∧ ticks 0 ≤ ticks 1 ∧ ticks 1 ≤ ticks 2 ∧ ticks 2 ≤ ticks 3 ∧
      ticks 3 ≤ start ∧ Clocked start calls
  | t, .flush now :: calls => t ≤ now ∧ Clocked now calls
  | t, .cleanExpired now :: calls => t ≤ now ∧ Clocked now calls
  | t, .enable :: calls => Clocked t calls
  | t, .disable :: calls => Clocked t calls

/-! ## One call -/

/-- `clean_expired` keeps the entries that are not too old. -/
theorem lookup_cleanExpired {c : Cache T} {now t : Int} {key : Str} {v : T} :
    (c.cleanExpired now).contents.lookup key = some (t, v) ↔ c.contents.lookup key = some (t, v) ∧ now - c.ttl ≤ t := by
  have hnd : (c.contents.entries.filter (c.fresh now)).NodupKeys :=
    List.NodupKeys.sublist List.filter_sublist c.contents.nodupKeys
  rw [cleanExpired, AList.lookup_to_alist, ← Option.mem_def, List.mem_dlookup_iff hnd, List.mem_filter,
    ← AList.mem_lookup_iff, Option.mem_def]
  simp [fresh]

/-- The cache after the first expiry check of `get`. -/
def opened (c : Cache T) (ticks : Nat → Int) : Cache T :=
  if { c with gets := c.gets + 1 }.isCacheTtlExpired (ticks 0) then { c with gets := c.gets + 1 }.cleanExpired (ticks 1)
  else { c with gets := c.gets + 1 }

theorem find_eq {c : Cache T} {ticks : Nat → Int} {key : Str} :
    c.find ticks key = match (c.opened ticks).contents.lookup key with
      | none => (c.opened ticks, .inr (ticks 2))
      | some (created, v) =>
        if created < ticks 2 - (c.opened ticks).ttl then ((c.opened ticks).cleanExpired (ticks 3), .inr (ticks 2))
        else ({ c.opened ticks with hits := (c.opened ticks).hits + 1 }, .inl v) := rfl

/-- The check keeps the settings of a cache; if it does not clean, the last cleaning is not too long ago. -/
theorem opened_spec (c : Cache T) (ticks : Nat → Int) :
    (c.opened ticks).ttl = c.ttl ∧ (c.opened ticks).enabled = c.enabled ∧
    (∀ k x, (c.opened ticks).contents.lookup k = some x → c.contents.lookup k = some x) ∧
    (((c.opened ticks).lastCleaned = ticks 1 ∧
        ∀ k t v, (c.opened ticks).contents.lookup k = some (t, v) → ticks 1 - c.ttl ≤ t) ∨
      ((c.opened ticks).lastCleaned = c.lastCleaned ∧ ticks 0 - c.ttl ≤ c.lastCleaned)) := by
  unfold opened
  split
  · refine ⟨rfl, rfl, fun k x hx => ?_, .inl ⟨rfl, fun k t v hv => (lookup_cleanExpired.1 hv).2⟩⟩
    obtain ⟨t, v⟩ := x
    exact (lookup_cleanExpired.1 hx).1
  · rename_i h
    refine ⟨rfl, rfl, fun k x hx => hx, .inr ⟨rfl, ?_⟩⟩
    simpa [isCacheTtlExpired] using h

/-- Up to the call of the wrapped function `get` keeps the settings, and entries only go. -/
theorem find_frame (c : Cache T) (ticks : Nat → Int) (key : Str) :
    (c.find ticks key).1.ttl = c.ttl ∧ (c.find ticks key).1.enabled = c.enabled ∧
    ∀ k x, (c.find ticks key).1.contents.lookup k = some x → (c.opened ticks).contents.lookup k = some x := by
  obtain ⟨httl, hen, -⟩ := opened_spec c ticks
  rw [find_eq]
  split
  · exact ⟨httl, hen, fun k x hx => hx⟩
  · split
    · refine ⟨httl, hen, fun k x hx => ?_⟩
      obtain ⟨t, v⟩ := x
      exact (lookup_cleanExpired.1 hx).1
    · exact ⟨httl, hen, fun k x hx => hx⟩

theorem find_subset {c : Cache T} {ticks : Nat → Int} {key k : Str} {x : Int × T}
    (hx : (c.find ticks key).1.contents.lookup k = some x) : c.contents.lookup k = some x :=
  (opened_spec _ _).2.2.1 k x ((find_frame _ _ _).2.2 k x hx)

/-- A hit is young enough; after a miss there is no entry for the key. -/
theorem find_spec (c : Cache T) {ticks : Nat → Int} (key : Str) (h : ticks 2 ≤ ticks 3) :
    (∀ v, (c.find ticks key).2 = .inl v → ∃ t, c.contents.lookup key = some (t, v) ∧ ticks 2 - c.ttl ≤ t) ∧
    ∀ now, (c.find ticks key).2 = .inr now → now = ticks 2 ∧ (c.find ticks key).1.contents.lookup key = none := by
  obtain ⟨httl, -, hsub, -⟩ := opened_spec c ticks
  rw [find_eq]
  split
  · rename_i hnone
    exact ⟨fun v hv => (by cases hv), fun now hn => ⟨(Sum.inr.inj hn).symm, hnone⟩⟩
  · rename_i created v hsome
    split
    · -- the second cleaning, at a later reading, takes the entry away
      rename_i hold
      refine ⟨fun v hv => (by cases hv), fun now hn => ⟨(Sum.inr.inj hn).symm, ?_⟩⟩
      rw [Option.eq_none_iff_forall_not_mem]
      rintro ⟨t, v'⟩ hx
      obtain ⟨hx, hle⟩ := lookup_cleanExpired.1 hx
      rw [hsome] at hx
      cases hx
      omega
    · rename_i hyoung
      refine ⟨fun v' hv => ⟨created, ?_, ?_⟩, fun now hn => (by cases hn)⟩
      · cases hv
        exact hsub _ _ hsome
      · rw [httl] at hyoung
        omega

/-- `emplace` keeps the settings and adds at most the new entry. -/
theorem emplace_frame (c : Cache T) (key : Str) (now : Int) (v : T) :
    (c.emplace key now v).ttl = c.ttl ∧ (c.emplace key now v).lastCleaned = c.lastCleaned ∧
    ∀ k x, (c.emplace key now v).contents.lookup k = some x → (k = key ∧ x = (now, v)) ∨
      c.contents.lookup k = some x := by
  unfold emplace
  split
  · refine ⟨rfl, rfl, fun k x hx => ?_⟩
    by_cases e : k = key
    · subst e
      rw [AList.lookup_insert] at hx
      exact .inl ⟨rfl, (Option.some.inj hx).symm⟩
    · rw [AList.lookup_insert_ne e] at hx
      exact .inr hx
  · exact ⟨rfl, rfl, fun k x hx => .inr hx⟩

/-- After a miss the new value is stored. -/
theorem valueAt_emplace {c : Cache T} {key : Str} {now : Int} {v : T} (h : c.contents.lookup key = none) :
    (c.emplace key now v).valueAt key = some v := by
  unfold emplace valueAt
  rw [h]
  simp

/-- What `get` does to an enabled cache: it hits a young entry; it stores and returns what it fetched; or it throws
and has no entry for the key. -/
theorem get_spec {c : Cache T} {ticks : Nat → Int} (key : Str) (fetch : Except ε T) (h : ticks 2 ≤ ticks 3)
    (hen : c.enabled = true) :
    (∃ v t, (c.get ticks key fetch).2 = .hit v ∧ c.contents.lookup key = some (t, v) ∧ ticks 2 - c.ttl ≤ t ∧
      (c.get ticks key fetch).1 = (c.find ticks key).1) ∨
    (∃ v, (c.get ticks key fetch).2 = .fetched v ∧ fetch = .ok v ∧
      (c.get ticks key fetch).1 = (c.find ticks key).1.emplace key (ticks 2) v ∧
      (c.find ticks key).1.contents.lookup key = none) ∨
    ∃ e, (c.get ticks key fetch).2 = .threw e ∧ fetch = .error e ∧ (c.get ticks key fetch).1 = (c.find ticks key).1 ∧
      (c.find ticks key).1.contents.lookup key = none := by
  obtain ⟨hhit, hmiss⟩ := find_spec c key h
  unfold get
  rw [if_neg (by simp [hen])]
  generalize c.find ticks key = f at hhit hmiss
  obtain ⟨c', r⟩ := f
  cases r with
  | inl v =>
    obtain ⟨t, ht, hle⟩ := hhit v rfl
    exact .inl ⟨v, t, rfl, ht, hle, rfl⟩
  | inr now =>
    obtain ⟨rfl, hnone⟩ := hmiss now rfl
    cases fetch with
    | error e => exact .inr (.inr ⟨e, rfl, rfl, rfl, hnone⟩)
    | ok v =>
      refine .inr (.inl ⟨v, ?_, rfl, rfl, hnone⟩)
      dsimp only
      rw [valueAt_emplace hnone]

/-- A call of `get` on a cache that is not enabled calls the wrapped function and nothing else. -/
theorem get_disabled {c : Cache T} {ticks : Nat → Int} {key : Str} {fetch : Except ε T} (hen : c.enabled = false) :
    c.get ticks key fetch = match fetch with
      | .ok v => (c, .fetched v)
      | .error e => (c, .threw e) := by
  unfold get
  rw [if_pos (by simp [hen])]

/-! ## What was fetched -/

/-- Every entry comes from a fetch of the log that began no earlier than the time of the entry. -/
def Known (c : Cache T) (L : List (Str × Int × T)) : Prop :=
  ∀ k t v, c.contents.lookup k = some (t, v) → ∃ b, (k, b, v) ∈ L ∧ t ≤ b

theorem Known.of_subset {c c' : Cache T} {L L' : List (Str × Int × T)} (h : Known c L)
    (hc : ∀ k x, c'.contents.lookup k = some x → c.contents.lookup k = some x) (hL : ∀ x ∈ L, x ∈ L') :
    Known c' L' := by
  intro k t v hv
  obtain ⟨b, hb, hle⟩ := h k t v (hc k _ hv)
  exact ⟨b, hL _ hb, hle⟩

/-- One call keeps track of what was fetched. -/
theorem Known.apply {c : Cache T} {L : List (Str × Int × T)} {now : Int} {call : CacheCall ε T}
    {calls : List (CacheCall ε T)} (h : Known c L) (hc : Clocked now (call :: calls)) :
    Known (c.apply call) (L ++ c.fetches call) := by
  have hL : ∀ x ∈ L, x ∈ L ++ c.fetches call := fun x hx => List.mem_append.2 (.inl hx)
  cases call with
  | flush t =>
    intro k s v hv
    rw [Cache.apply, flush, AList.lookup_empty] at hv
    cases hv
  | cleanExpired t => exact h.of_subset (fun k x hx => (lookup_cleanExpired.1 hx).1) hL
  | enable => exact h.of_subset (fun k x hx => hx) hL
  | disable => exact h.of_subset (fun k x hx => hx) hL
  | get key ticks start fetch =>
    obtain ⟨-, -, h₂, h₃, h₄, -⟩ := hc
    by_cases hen : c.enabled = true
    swap
    · rw [Cache.apply, get_disabled (by simpa using hen)]
      cases fetch <;> exact h.of_subset (fun k x hx => hx) hL
    have hf : Known (c.find ticks key).1 (L ++ c.fetches (.get key ticks start fetch)) :=
      h.of_subset (fun k x hx => find_subset hx) hL
    rcases get_spec key fetch h₃ hen with
      ⟨v, t, -, -, -, hc'⟩ | ⟨v, ha, hv, hc', hnone⟩ | ⟨e, -, -, hc', -⟩
    · rw [Cache.apply, hc']
      exact hf
    · -- the new entry is the one of this fetch
      rw [Cache.apply, hc']
      intro k t v' hk
      rcases (emplace_frame _ _ _ _).2.2 k _ hk with ⟨rfl, hx⟩ | hk
      · cases hx
        refine ⟨start, List.mem_append.2 (.inr ?_), by omega⟩
        subst hv
        simp [fetches, ha]
      · exact hf k t v' hk
    · rw [Cache.apply, hc']
      exact hf

/-- A run keeps track of what was fetched. -/
theorem Known.run {call : CacheCall ε T} : ∀ {calls : List (CacheCall ε T)} {c : Cache T} {L : List (Str × Int × T)}
    {now : Int}, Known c L → Clocked now (calls ++ [call]) →
    Known (c.run calls) (L ++ c.log calls) ∧ ∃ now', Clocked now' [call]
  | [], c, L, now, h, hc => ⟨by simpa [Cache.run, log] using h, now, hc⟩
  | d :: calls, c, L, now, h, hc => by
    have hd := h.apply hc
    obtain ⟨now', hc'⟩ : ∃ now', Clocked now' (calls ++ [call]) := by
      cases d with
      | get key ticks start fetch => exact ⟨start, hc.2.2.2.2.2⟩
      | flush t => exact ⟨t, hc.2⟩
      | cleanExpired t => exact ⟨t, hc.2⟩
      | enable => exact ⟨now, hc⟩
      | disable => exact ⟨now, hc⟩
    obtain ⟨hk, hlast⟩ := Known.run hd hc'
    refine ⟨?_, hlast⟩
    rw [List.append_assoc] at hk
    exact hk

theorem ttl_apply {c : Cache T} {call : CacheCall ε T} : (c.apply call).ttl = c.ttl := by
  cases call with
  | flush t => rfl
  | cleanExpired t => rfl
  | enable => rfl
  | disable => rfl
  | get key ticks start fetch =>
    have hf := (find_frame c ticks key).1
    rw [Cache.apply, get.eq_def]
    generalize c.find ticks key = f at hf
    obtain ⟨c', r⟩ := f
    split
    · cases fetch <;> rfl
    · cases r with
      | inl v => exact hf
      | inr now => cases fetch with
        | error e => exact hf
        | ok v => exact (emplace_frame _ _ _ _).1.trans hf

theorem ttl_run {calls : List (CacheCall ε T)} {c : Cache T} : (c.run calls).ttl = c.ttl := by
  induction calls generalizing c with
  | nil => rfl
  | cons d calls ih => exact ih.trans ttl_apply

/-- An entry appears only with a fetch for its key. -/
theorem absent_apply {c : Cache T} {call : CacheCall ε T} {key : Str} (h : c.contents.lookup key = none)
    (hL : ∀ b v, (key, b, v) ∉ c.fetches call) : (c.apply call).contents.lookup key = none := by
  rw [Option.eq_none_iff_forall_not_mem] at h ⊢
  intro x hx
  cases call with
  | flush t =>
    rw [Cache.apply, flush, AList.lookup_empty] at hx
    cases hx
  | cleanExpired t => exact h x (lookup_cleanExpired.1 hx).1
  | enable => exact h x hx
  | disable => exact h x hx
  | get k ticks start fetch =>
    have hf : ∀ x, (c.find ticks k).1.contents.lookup key ≠ some x := fun x hx => h x (find_subset hx)
    rw [fetches.eq_def] at hL
    dsimp only at hL
    rw [get.eq_def] at hL
    rw [Cache.apply, get.eq_def] at hx
    generalize c.find ticks k = f at hf hL hx
    obtain ⟨c', r⟩ := f
    split at hx
    · cases fetch <;> exact h x hx
    · rename_i hen
      rw [if_neg hen] at hL
      cases r with
      | inl v => exact hf x hx
      | inr now => cases fetch with
        | error e => exact hf x hx
        | ok v =>
          rcases (emplace_frame _ _ _ _).2.2 key x hx with ⟨rfl, -⟩ | hx
          · apply hL start v
            cases hy : (c'.emplace key now v).valueAt key <;> simp [hy]
          · exact hf x hx

theorem absent_run {calls : List (CacheCall ε T)} {c : Cache T} {key : Str} (h : c.contents.lookup key = none)
    (hL : ∀ b v, (key, b, v) ∉ c.log calls) : (c.run calls).contents.lookup key = none := by
  induction calls generalizing c with
  | nil => exact h
  | cons d calls ih =>
    refine ih (absent_apply h fun b v hm => hL b v ?_) fun b v hm => hL b v ?_
    · exact List.mem_append.2 (.inl hm)
    · exact List.mem_append.2 (.inr hm)

/-- Without an entry there is no hit. -/
theorem no_hit {c : Cache T} {ticks : Nat → Int} {key : Str} {fetch : Except ε T} (h : c.contents.lookup key = none)
    (v : T) : (c.get ticks key fetch).2 ≠ .hit v := by
  have ho : (c.opened ticks).contents.lookup key = none := by
    rw [Option.eq_none_iff_forall_not_mem] at h ⊢
    exact fun x hx => h x ((opened_spec _ _).2.2.1 key x hx)
  have hf : c.find ticks key = (c.opened ticks, .inr (ticks 2)) := by rw [find_eq, ho]
  rw [get.eq_def, hf]
  split
  · cases fetch <;> simp
  · cases fetch with
    | error e => simp
    | ok v =>
      dsimp only
      generalize ((c.opened ticks).emplace key (ticks 2) v).valueAt key = y
      cases y <;> simp

theorem log_append {calls : List (CacheCall ε T)} {c : Cache T} {call : CacheCall ε T} :
    c.log (calls ++ [call]) = c.log calls ++ (c.run calls).fetches call := by
  induction calls generalizing c with
  | nil => simp [log, Cache.run]
  | cons d calls ih =>
    rw [List.cons_append, log, log, ih, List.append_assoc]
    rfl

/-! ## How old entries get -/

/-- The time between the clock reading of a call for its entry and the cleaning that may follow. -/
def gap : CacheCall ε T → Int
  | .get _ ticks _ _ => ticks 3 - ticks 2
  | _ => 0

/-- No entry is much older than the last cleaning, which is not in the future. -/
def Aged (d : Nat) (c : Cache T) (now : Int) : Prop :=
  (∀ k t v, c.contents.lookup k = some (t, v) → c.lastCleaned - max c.ttl d ≤ t) ∧ c.lastCleaned ≤ now

theorem Aged.cleanExpired {d : Nat} {c : Cache T} {now : Int} : Aged d (c.cleanExpired now) now := by
  refine ⟨fun k t v hv => ?_, Int.le_refl _⟩
  have := (lookup_cleanExpired.1 hv).2
  show now - max c.ttl d ≤ t
  omega

theorem Aged.opened {d : Nat} {c : Cache T} {now : Int} {ticks : Nat → Int} (h : Aged d c now) (h₀ : now ≤ ticks 0)
    (h₁ : ticks 0 ≤ ticks 1) : Aged d (c.opened ticks) (ticks 1) := by
  unfold Cache.opened
  split
  · exact Aged.cleanExpired
  · exact ⟨h.1, Int.le_trans h.2 (Int.le_trans h₀ h₁)⟩

/-- After the lookup of a `get` no entry is much older than its expiry check, and a new entry would not be either. -/
theorem Aged.find {d : Nat} {c : Cache T} {now : Int} {ticks : Nat → Int} (key : Str) (h : Aged d c now)
    (httl : 0 ≤ c.ttl) (h₀ : now ≤ ticks 0) (h₁ : ticks 0 ≤ ticks 1) (h₂ : ticks 1 ≤ ticks 2) (h₃ : ticks 2 ≤ ticks 3)
    (hd : ticks 3 - ticks 2 ≤ d) :
    Aged d (c.find ticks key).1 (ticks 3) ∧ (c.find ticks key).1.lastCleaned - max c.ttl d ≤ ticks 2 := by
  have ho := h.opened h₀ h₁
  rw [find_eq]
  split
  · exact ⟨⟨ho.1, by have := ho.2; dsimp only; omega⟩, by have := ho.2; dsimp only; omega⟩
  · split
    · refine ⟨Aged.cleanExpired, ?_⟩
      show ticks 3 - max c.ttl d ≤ ticks 2
      omega
    · exact ⟨⟨ho.1, by have := ho.2; dsimp only; omega⟩, by have := ho.2; dsimp only; omega⟩

/-- The expiry check of a `get` leaves no entry behind that is much older than it. -/
theorem Aged.recent {d : Nat} {c : Cache T} {now : Int} {ticks : Nat → Int} (h : Aged d c now) (httl : 0 ≤ c.ttl)
    (h₁ : ticks 0 ≤ ticks 1) {k : Str} {t : Int} {v : T} (hv : (c.opened ticks).contents.lookup k = some (t, v)) :
    ticks 0 - (c.ttl + max c.ttl d) ≤ t := by
  obtain ⟨-, -, hsub, ⟨-, hage⟩ | ⟨-, hlast⟩⟩ := opened_spec c ticks
  · have := hage k t v hv
    omega
  · have := h.1 k t v (hsub k _ hv)
    omega

/-- One call keeps the entries young. -/
theorem Aged.apply {d : Nat} {c : Cache T} {now : Int} {call : CacheCall ε T} {calls : List (CacheCall ε T)}
    (h : Aged d c now) (httl : 0 ≤ c.ttl) (hc : Clocked now (call :: calls)) (hd : gap call ≤ d) :
    ∃ now', Aged d (c.apply call) now' ∧ Clocked now' calls := by
  cases call with
  | flush t =>
    refine ⟨t, ⟨fun k s v hv => ?_, Int.le_refl _⟩, hc.2⟩
    rw [Cache.apply, flush, AList.lookup_empty] at hv
    cases hv
  | cleanExpired t => exact ⟨t, Aged.cleanExpired, hc.2⟩
  | enable => exact ⟨now, h, hc⟩
  | disable => exact ⟨now, h, hc⟩
  | get key ticks start fetch =>
    obtain ⟨h₀, h₁, h₂, h₃, h₄, hrest⟩ := hc
    refine ⟨start, ?_, hrest⟩
    by_cases hen : c.enabled = true
    swap
    · rw [Cache.apply, get_disabled (by simpa using hen)]
      have hm : Aged d c start := ⟨h.1, by have := h.2; omega⟩
      cases fetch <;> exact hm
    obtain ⟨hf, hnew⟩ := h.find key httl h₀ h₁ h₂ h₃ hd
    have hf' : Aged d (c.find ticks key).1 start := ⟨hf.1, Int.le_trans hf.2 h₄⟩
    rcases get_spec key fetch h₃ hen with
      ⟨v, t, -, -, -, hc'⟩ | ⟨v, ha, hv, hc', hnone⟩ | ⟨e, -, -, hc', -⟩
    · rw [Cache.apply, hc']
      exact hf'
    · obtain ⟨hl, hlast, hent⟩ := emplace_frame (c.find ticks key).1 key (ticks 2) v
      rw [Cache.apply, hc', Aged, hl, hlast]
      refine ⟨fun k t v' hk => ?_, hf'.2⟩
      rcases hent k _ hk with ⟨rfl, hx⟩ | hk
      · cases hx
        rw [(find_frame _ _ _).1]
        exact hnew
      · exact hf'.1 k t v' hk
    · rw [Cache.apply, hc']
      exact hf'

/-- A run keeps the entries young. -/
theorem Aged.run {d : Nat} {call : CacheCall ε T} : ∀ {calls : List (CacheCall ε T)} {c : Cache T} {now : Int},
    Aged d c now → 0 ≤ c.ttl → Clocked now (calls ++ [call]) → (∀ x ∈ calls, gap x ≤ d) →
    ∃ now', Aged d (c.run calls) now' ∧ Clocked now' [call]
  | [], c, now, h, _, hc, _ => ⟨now, h, hc⟩
  | x :: calls, c, now, h, httl, hc, hd => by
    obtain ⟨now', h', hc'⟩ := h.apply httl hc (hd x (by simp))
    have httl' : 0 ≤ (c.apply x).ttl := by rw [ttl_apply]; exact httl
    have hrun := Aged.run h' httl' hc' fun y hy => hd y (by simp [hy])
    exact hrun

end Cache

/-- **What `get` returns is fresh.** After any calls of a new cache, at clock readings that do not go back: a value
that `get` returns was fetched for its key by a call that began no more than the time to live before the clock
reading of the `get`; `at` never fails; an exception of the wrapped function comes out. If the cache is enabled, the
exception leaves no entry for the key, so that a later `get` calls the wrapped function again; if it is not, the
cache is left as it was. -/
theorem cache_get_fresh {ε T : Type} (ttl : Nat) (t₀ : Int) (calls : List (CacheCall ε T)) (key : Str)
    (ticks : Nat → Int) (start : Int) (fetch : Except ε T)
    (h : Cache.Clocked t₀ (calls ++ [.get key ticks start fetch])) :
    let c₀ : Cache T := Cache.init ttl t₀
    let c := c₀.run calls
    let r := c.get ticks key fetch
    (∀ v, r.2.value? = some v → ∃ b, (key, b, v) ∈ c₀.log (calls ++ [.get key ticks start fetch]) ∧ ticks 2 - ttl ≤ b) ∧
    r.2 ≠ .outOfRange ∧ (∀ e, fetch = .error e → (∃ v, r.2 = .hit v) ∨ r.2 = .threw e) ∧
    (c.enabled = true → ∀ e, r.2 = .threw e → r.1.contents.lookup key = none ∧
      ∀ (later : List (CacheCall ε T)) (ticks' : Nat → Int) (fetch' : Except ε T),
        (∀ b v, (key, b, v) ∉ r.1.log later) → ∀ v, ((r.1.run later).get ticks' key fetch').2 ≠ .hit v) ∧
    (c.enabled = false → r.1 = c) := by
  intro c₀ c r
  have hk₀ : Cache.Known c₀ [] := fun k t v hv => by
    have : (∅ : AList fun _ : Str => Int × T).lookup k = some (t, v) := hv
    rw [AList.lookup_empty] at this
    cases this
  obtain ⟨hk, now, -, -, h₂, h₃, h₄, -⟩ := hk₀.run h
  rw [List.nil_append] at hk
  have httl : c.ttl = ttl := Cache.ttl_run
  rw [Cache.log_append]
  by_cases hen : c.enabled = true
  · rcases Cache.get_spec key fetch h₃ hen with
      ⟨v, t, ha, ht, hle, -⟩ | ⟨v, ha, rfl, -, -⟩ | ⟨e, ha, rfl, hc', hnone⟩
    · refine ⟨fun v' hv => ?_, ?_, fun e _ => .inl ⟨v, ha⟩, fun _ e he => ?_, fun hd => ?_⟩
      · rw [show r.2 = _ from ha] at hv
        cases hv
        obtain ⟨b, hb, hle'⟩ := hk key t v ht
        exact ⟨b, List.mem_append.2 (.inl hb), by rw [httl] at hle; omega⟩
      · rw [show r.2 = _ from ha]
        simp
      · rw [show r.2 = _ from ha] at he
        cases he
      · rw [hen] at hd
        cases hd
    · refine ⟨fun v' hv => ?_, ?_, fun e he => (by cases he), fun _ e he => ?_, fun hd => ?_⟩
      · rw [show r.2 = _ from ha] at hv
        cases hv
        refine ⟨start, List.mem_append.2 (.inr ?_), by omega⟩
        show (key, start, v) ∈ c.fetches _
        simp [Cache.fetches, ha]
      · rw [show r.2 = _ from ha]
        simp
      · rw [show r.2 = _ from ha] at he
        cases he
      · rw [hen] at hd
        cases hd
    · refine ⟨fun v' hv => ?_, ?_, fun e he => ?_, fun _ e he => ?_, fun hd => ?_⟩
      · rw [show r.2 = _ from ha] at hv
        cases hv
      · rw [show r.2 = _ from ha]
        simp
      · cases he
        exact .inr ha
      · have hr : r.1.contents.lookup key = none := by
          rw [show r.1 = _ from hc']
          exact hnone
        exact ⟨hr, fun later ticks' fetch' hL v => Cache.no_hit (Cache.absent_run hr hL) v⟩
      · rw [hen] at hd
        cases hd
  · have hdis : c.enabled = false := by simpa using hen
    have hr : r = _ := Cache.get_disabled hdis
    cases fetch with
    | ok v =>
      rw [hr]
      refine ⟨fun v' hv => ?_, by simp, fun e he => (by cases he), fun h' => absurd h' hen, fun _ => rfl⟩
      cases hv
      refine ⟨start, List.mem_append.2 (.inr ?_), by omega⟩
      show (key, start, v) ∈ c.fetches _
      simp [Cache.fetches, Cache.get_disabled hdis]
    | error e =>
      rw [hr]
      refine ⟨fun v' hv => (by cases hv), by simp, fun e' he => ?_, fun h' => absurd h' hen, fun _ => rfl⟩
      cases he
      exact .inr rfl

/-- A first `get` of a key. -/
theorem cache_get_fresh_first :
    ((Cache.init 5 0 : Cache Nat).get (fun _ => 0) "k".toList (.ok 1 : Except Unit Nat)).2.value? = some 1 ∧
    ∃ b, ("k".toList, b, 1) ∈ (Cache.init 5 0 : Cache Nat).log
      [.get "k".toList (fun _ => 0) 0 (.ok 1 : Except Unit Nat)] ∧ (0 : Int) - (5 : Nat) ≤ b := by
  have hv : ((Cache.init 5 0 : Cache Nat).get (fun _ => 0) "k".toList (.ok 1 : Except Unit Nat)).2.value? = some 1 := by
    decide
  exact ⟨hv,
    (cache_get_fresh 5 0 [] "k".toList (fun _ => 0) 0 (.ok 1 : Except Unit Nat) (by simp [Cache.Clocked])).1 1 hv⟩

/-- An exception while the cache is disabled leaves an older entry where it is: with the cache enabled again, the
next `get` is a hit. -/
theorem cache_keeps_entry_when_disabled :
    let calls : List (CacheCall Unit Nat) := [.get "k".toList (fun _ => 0) 0 (.ok 1), .disable]
    let c := (Cache.init 5 0 : Cache Nat).run calls
    let r := c.get (fun _ => 0) "k".toList (.error () : Except Unit Nat)
    r.2 = .threw () ∧ r.1.contents.lookup "k".toList = some (0, 1) ∧
      ((r.1.apply (.enable : CacheCall Unit Nat)).get (fun _ => 0) "k".toList (.ok 2 : Except Unit Nat)).2 =
      .hit 1 := by
  decide +kernel

/-- **No entry gets old.** After any calls of a new cache, at clock readings that do not go back, and a `get` on the
enabled cache: every entry was created no more than `ttl + max ttl d` before the expiry check of the `get`, where
`d` bounds the time that passes in one `get` between its clock reading and its second cleaning. -/
theorem cache_entries_recent {ε T : Type} (ttl d : Nat) (t₀ : Int) (calls : List (CacheCall ε T)) (key : Str)
    (ticks : Nat → Int) (start : Int) (fetch : Except ε T)
    (h : Cache.Clocked t₀ (calls ++ [.get key ticks start fetch]))
    (hd : ∀ x ∈ calls ++ [.get key ticks start fetch], Cache.gap x ≤ d)
    (hen : ((Cache.init ttl t₀ : Cache T).run calls).enabled = true) {k : Str} {t : Int} {v : T}
    (hv : (((Cache.init ttl t₀ : Cache T).run calls).get ticks key fetch).1.contents.lookup k = some (t, v)) :
    ticks 0 - (ttl + max ttl d) ≤ t := by
  have ha₀ : Cache.Aged d (Cache.init ttl t₀ : Cache T) t₀ := by
    refine ⟨fun k t v hv => ?_, Int.le_refl _⟩
    have : (∅ : AList fun _ : Str => Int × T).lookup k = some (t, v) := hv
    rw [AList.lookup_empty] at this
    cases this
  have httl₀ : (Cache.init ttl t₀ : Cache T).ttl = ttl := rfl
  obtain ⟨now, ha, h₀, h₁, h₂, h₃, h₄, -⟩ := ha₀.run (by rw [httl₀]; omega) h fun x hx => hd x (by simp [hx])
  generalize hc : (Cache.init ttl t₀ : Cache T).run calls = c at ha hen hv
  have httl : c.ttl = ttl := by rw [← hc]; exact Cache.ttl_run
  have hrec : ∀ k t v, (c.find ticks key).1.contents.lookup k = some (t, v) → ticks 0 - (ttl + max ttl d) ≤ t := by
    intro k t v hv
    have := ha.recent (by omega) h₁ ((Cache.find_frame _ _ _).2.2 k _ hv)
    rw [httl] at this
    omega
  rcases Cache.get_spec key fetch h₃ hen with
    ⟨v', t', -, -, -, hc'⟩ | ⟨v', -, -, hc', -⟩ | ⟨e, -, -, hc', -⟩
  · rw [hc'] at hv
    exact hrec k t v hv
  · rw [hc'] at hv
    rcases (Cache.emplace_frame _ _ _ _).2.2 k _ hv with ⟨-, hx⟩ | hv
    · cases hx
      omega
    · exact hrec k t v hv
  · rw [hc'] at hv
    exact hrec k t v hv

/-- The entry of a first `get`. -/
theorem cache_entries_recent_first : (0 : Int) - ((5 : Nat) + max (5 : Nat) (0 : Nat)) ≤ 0 :=
  cache_entries_recent (T := Nat) (k := "k".toList) (v := 1) 5 0 0 [] "k".toList (fun _ => 0) 0
    (.ok 1 : Except Unit Nat)
    (by simp [Cache.Clocked]) (by simp [Cache.gap]) (by decide +kernel) (by decide +kernel)

/-- An entry that is found expired at the clock reading 6, with the cleaning that follows at 20, is replaced by one
that counts as made at 6; it is there at 25, although the time to live is 5. -/
theorem cache_entry_outlives :
    let ticks : Nat → Int := fun n => if n < 2 then 5 else if n = 2 then 6 else 20
    let calls : List (CacheCall Unit Nat) := [.get "k".toList (fun _ => 0) 0 (.ok 1), .get "k".toList ticks 20 (.ok 2)]
    let c := (Cache.init 5 0 : Cache Nat).run calls
    Cache.Clocked 0 (calls ++ [.get "j".toList (fun _ => 25) 25 (.ok 3)]) ∧ c.enabled = true ∧
      ∃ t v, (c.get (fun _ => 25) "j".toList (.ok 3 : Except Unit Nat)).1.contents.lookup "k".toList = some (t, v) ∧
        ¬ (25 : Int) - 2 * 5 ≤ t := by
  refine ⟨by simp [Cache.Clocked], by decide +kernel, 6, 2, by decide +kernel, by decide⟩

end OortAgent
