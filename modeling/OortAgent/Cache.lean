import Mathlib.Data.List.AList
import OortAgent.Lib.Path

/-!
# The cache of `Cache.h`

A map from keys to a creation time and a value, with a time to live. `get` is cut at the call of the wrapped function:
`find` is everything before it, `emplace` and `valueAt` what follows; in between the lock is held.
-/

namespace OortAgent

open Lib (Str)

/-- A `Cache<T>`; times are in milliseconds. -/
structure Cache (T : Type) where
  enabled : Bool := true
  ttl : Int := 5000
  lastCleaned : Int := 0
  contents : AList (fun _ : Str => Int × T) := ∅
  gets : Nat := 0
  hits : Nat := 0
  cleaned : Nat := 0

namespace Cache

variable {T : Type}

/-- `is_cache_ttl_expired`, at the clock reading `now`. -/
def isCacheTtlExpired (c : Cache T) (now : Int) : Bool := decide (c.lastCleaned < now - c.ttl)

/-- The entry is not expired at `now`. -/
def fresh (c : Cache T) (now : Int) (e : Sigma fun _ : Str => Int × T) : Bool := decide (¬ e.2.1 < now - c.ttl)

/-- `clean_expired`, at the clock reading `now`. -/
def cleanExpired (c : Cache T) (now : Int) : Cache T :=
  { c with
    contents := (c.contents.entries.filter (c.fresh now)).toAList
    cleaned := c.cleaned + (c.contents.entries.filter fun e => !c.fresh now e).length
    lastCleaned := now }

/-- `get` up to the call of the wrapped function: the value of a hit, or the clock reading to store with a miss. The
clock is read for the expiry check, for a first cleaning, for the entry, and for a second cleaning. -/
def find (c : Cache T) (ticks : Nat → Int) (key : Str) : Cache T × (T ⊕ Int) :=
  let c := { c with gets := c.gets + 1 }
  let c := if c.isCacheTtlExpired (ticks 0) then c.cleanExpired (ticks 1) else c
  let now := ticks 2
  match c.contents.lookup key with
  | none => (c, .inr now)
  | some (created, v) =>
    if created < now - c.ttl then (c.cleanExpired (ticks 3), .inr now) else ({ c with hits := c.hits + 1 }, .inl v)

/-- `contents.emplace(key, make_pair(now, v))`: an entry that is there stays. -/
def emplace (c : Cache T) (key : Str) (now : Int) (v : T) : Cache T :=
  match c.contents.lookup key with
  | none => { c with contents := c.contents.insert key (now, v) }
  | some _ => c

/-- `contents.at(key).second`. -/
def valueAt (c : Cache T) (key : Str) : Option T := (c.contents.lookup key).map Prod.snd

end Cache

end OortAgent
