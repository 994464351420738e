import Nsr.Json.Syntax
import Nsr.Lib.LinearProbing

/-!
# The cache of the GeoIP plugin

`geo_hash`, `geo_cache_find` and `geo_cache_store` of `plugins/geoip/geoip.c`: a table of 256
entries with linear probing, in which the country and the provider of an address are kept.

A field of characters is the list of its bytes before the NUL; `strncpy` pads with NULs, so nothing
of what the field held before is left behind them.

* `GeoEntry.toCell`: an entry as a cell of a table with linear probing.
* `geoCacheStore_toCell`, `geoCacheFind_toCell`: the two functions are those of such a table.
* `geoCache_map`: the cache is a map that takes 256 keys.
-/

namespace Nsr

open LinearProbing

/-- `GEO_CACHE_SIZE`. -/
abbrev geoCacheSize : ℕ := 256

/-- `geo_entry_t`. -/
structure GeoEntry where
  ip : Bytes
  country : Bytes
  provider : Bytes
  valid : Bool
  deriving DecidableEq

/-- `cache` of `geoip_state_t`. -/
abbrev GeoCache := Fin geoCacheSize → GeoEntry

/-- The zeroed cache. -/
def geoCacheInit : GeoCache :=
  fun _ => ⟨[], [], [], false⟩

/-- `geo_hash`. -/
def geoHash (ip : Bytes) : UInt32 :=
  ip.foldl (fun (h : UInt32) c => ((h <<< 5) + h) + c.toUInt32) 5381 % 256

/-- The slots `(idx + i) % GEO_CACHE_SIZE` of the rounds of both loops. -/
def geoSlots (ip : CStr) : List (Fin geoCacheSize) :=
  way geoCacheSize (geoHash ip.bytes).toNat

/-- The loop of `geo_cache_find`. -/
def geoCacheFindLoop (cache : GeoCache) (ip : CStr) : List (Fin geoCacheSize) → Option GeoEntry
  | [] => none
  | c :: cs =>
    if (cache c).valid = true ∧ (cache c).ip = ip.bytes then some (cache c)
    else if ¬(cache c).valid = true then none
    else geoCacheFindLoop cache ip cs

/-- **`geo_cache_find`.** -/
def geoCacheFind (cache : GeoCache) (ip : CStr) : Option GeoEntry :=
  geoCacheFindLoop cache ip (geoSlots ip)

/-- `s ? s : ""`. -/
def orEmpty (s : Option CStr) : Bytes :=
  (s.map CStr.bytes).getD []

/-- What `geo_cache_store` writes into an entry. -/
def geoEntry (ip : CStr) (country provider : Option CStr) : GeoEntry where
  ip := ip.bytes.take 47
  country := (orEmpty country).take 31
  provider := (orEmpty provider).take 63
  valid := true

/-- The loop of `geo_cache_store`. -/
def geoCacheStoreLoop (cache : GeoCache) (ip : CStr) (country provider : Option CStr) :
    List (Fin geoCacheSize) → GeoCache
  | [] => cache
  | c :: cs =>
    if ¬(cache c).valid = true ∨ (cache c).ip = ip.bytes then
      Function.update cache c (geoEntry ip country provider)
    else geoCacheStoreLoop cache ip country provider cs

/-- **`geo_cache_store`.** -/
def geoCacheStore (cache : GeoCache) (ip : CStr) (country provider : Option CStr) : GeoCache :=
  geoCacheStoreLoop cache ip country provider (geoSlots ip)

/-! ## The table behind the cache -/

/-- **An entry as a cell**: nothing, or the key with the country and the provider. -/
def GeoEntry.toCell (e : GeoEntry) : Option (Bytes × Bytes × Bytes) :=
  if e.valid = true then some (e.ip, e.country, e.provider) else none

/-- The hash as a number. -/
def geoStart (ip : Bytes) : ℕ :=
  (geoHash ip).toNat

/-- The cells of a cache. -/
def geoTable (cache : GeoCache) (c : Fin geoCacheSize) : Option (Bytes × Bytes × Bytes) :=
  (cache c).toCell

/-- The cache holds a dictionary. -/
def GeoCache.Holds (cache : GeoCache) (d : List (Bytes × Bytes × Bytes)) : Prop :=
  Represents geoStart (geoTable cache) d

theorem GeoEntry.toCell_of_valid {e : GeoEntry} (h : e.valid = true) :
    e.toCell = some (e.ip, e.country, e.provider) :=
  if_pos h

theorem GeoEntry.toCell_of_not_valid {e : GeoEntry} (h : ¬e.valid = true) : e.toCell = none :=
  if_neg h

/-- Both loops go on at the slots where the probe does. -/
theorem stops_geoTable (cache : GeoCache) (ip : CStr) (c : Fin geoCacheSize) :
    stops (geoTable cache) ip.bytes c = true ↔
      ¬(cache c).valid = true ∨ (cache c).ip = ip.bytes := by
  by_cases hv : (cache c).valid = true
  · rw [stops_of_eq (GeoEntry.toCell_of_valid hv), decide_eq_true_iff]
    simp [hv]
  · rw [stops_of_none (GeoEntry.toCell_of_not_valid hv)]
    simp [hv]

theorem geoCacheFindLoop_eq (cache : GeoCache) (ip : CStr) (cs : List (Fin geoCacheSize)) :
    (geoCacheFindLoop cache ip cs).map (fun e => (e.country, e.provider)) =
      (cs.find? (stops (geoTable cache) ip.bytes)).bind fun c =>
        (geoTable cache c).map Prod.snd := by
  induction cs with
  | nil => rfl
  | cons c cs ih =>
    rw [geoCacheFindLoop, List.find?_cons]
    by_cases hstop : stops (geoTable cache) ip.bytes c = true
    · rw [hstop, Option.bind_some]
      have hcell := (stops_geoTable cache ip c).mp hstop
      by_cases hv : (cache c).valid = true
      · have hip := hcell.resolve_left (not_not.mpr hv)
        rw [if_pos ⟨hv, hip⟩, geoTable, GeoEntry.toCell_of_valid hv]
        rfl
      · rw [if_neg fun h => hv h.1, if_pos hv, geoTable, GeoEntry.toCell_of_not_valid hv]
        rfl
    · have hgo := not_or.mp (mt (stops_geoTable cache ip c).mpr hstop)
      rw [if_neg fun h => hgo.2 h.2, if_neg hgo.1, Bool.eq_false_iff.mpr hstop, ih]

/-- **`geo_cache_find` looks up in the table.** -/
theorem geoCacheFind_toCell (cache : GeoCache) (ip : CStr) :
    (geoCacheFind cache ip).map (fun e => (e.country, e.provider)) =
      find geoStart (geoTable cache) ip.bytes :=
  geoCacheFindLoop_eq cache ip (geoSlots ip)

theorem geoTable_update (cache : GeoCache) (c : Fin geoCacheSize) (e : GeoEntry) :
    geoTable (Function.update cache c e) = Function.update (geoTable cache) c e.toCell := by
  funext c'
  rw [geoTable]
  by_cases h : c' = c
  · subst h
    rw [Function.update_self, Function.update_self]
  · rw [Function.update_of_ne h, Function.update_of_ne h, geoTable]

theorem geoCacheStoreLoop_eq (cache : GeoCache) (ip : CStr) (country provider : Option CStr)
    (cs : List (Fin geoCacheSize)) :
    geoCacheStoreLoop cache ip country provider cs =
      match cs.find? (stops (geoTable cache) ip.bytes) with
      | some c => Function.update cache c (geoEntry ip country provider)
      | none => cache := by
  induction cs with
  | nil => rfl
  | cons c cs ih =>
    rw [geoCacheStoreLoop, List.find?_cons]
    by_cases hstop : stops (geoTable cache) ip.bytes c = true
    · rw [if_pos ((stops_geoTable cache ip c).mp hstop), hstop]
    · rw [if_neg (mt (stops_geoTable cache ip c).mpr hstop), Bool.eq_false_iff.mpr hstop, ih]

/-- **`geo_cache_store` stores in the table**, when the key fits into the field for it. -/
theorem geoCacheStore_toCell (cache : GeoCache) {ip : CStr} (hip : ip.bytes.length ≤ 47)
    (country provider : Option CStr) :
    geoTable (geoCacheStore cache ip country provider) =
      store geoStart (geoTable cache) ip.bytes
        ((orEmpty country).take 31, (orEmpty provider).take 63) := by
  rw [geoCacheStore, geoCacheStoreLoop_eq, store]
  change geoTable (match locate geoStart (geoTable cache) ip.bytes with
    | some c => Function.update cache c (geoEntry ip country provider)
    | none => cache) = _
  rcases locate geoStart (geoTable cache) ip.bytes with _ | c
  · rfl
  · rw [geoTable_update, GeoEntry.toCell_of_valid rfl, geoEntry, List.take_of_length_le hip]

/-! ## Runs -/

/-- A call of `geo_cache_store`. -/
structure GeoStore where
  ip : CStr
  country : Option CStr
  provider : Option CStr

/-- The key of a call, and what it leaves under it. -/
def GeoStore.entry (s : GeoStore) : Bytes × Bytes × Bytes :=
  (s.ip.bytes, (orEmpty s.country).take 31, (orEmpty s.provider).take 63)

/-- The cache after a sequence of calls of `geo_cache_store`, from the zeroed one on. -/
def geoCacheAfter (stores : List GeoStore) : GeoCache :=
  stores.foldl (fun cache s => geoCacheStore cache s.ip s.country s.provider) geoCacheInit

theorem geoTable_foldl (cache : GeoCache) {stores : List GeoStore}
    (hkeys : ∀ s ∈ stores, s.ip.bytes.length ≤ 47) :
    geoTable (stores.foldl (fun cache s => geoCacheStore cache s.ip s.country s.provider) cache) =
      (stores.map GeoStore.entry).foldl (fun t e => store geoStart t e.1 e.2)
        (geoTable cache) := by
  induction stores generalizing cache with
  | nil => rfl
  | cons s stores ih =>
    rw [List.foldl_cons, List.map_cons, List.foldl_cons,
      ih _ fun s' hs' => hkeys s' (List.mem_cons_of_mem s hs'),
      geoCacheStore_toCell cache (hkeys s List.mem_cons_self)]
    rfl

/-- **A run of stores** leaves what it leaves of a dictionary of at most 256 keys. -/
theorem geoCacheAfter_represents {stores : List GeoStore}
    (hkeys : ∀ s ∈ stores, s.ip.bytes.length ≤ 47) :
    Represents geoStart (geoTable (geoCacheAfter stores))
      ((stores.map GeoStore.entry).foldl
        (fun d e => OrderedDict.setWithin geoCacheSize d e.1 e.2) []) := by
  rw [geoCacheAfter, geoTable_foldl geoCacheInit hkeys]
  exact (represents_empty geoStart).foldl_store _

/-- A store of a key that a full cache does not have. -/
theorem geoCacheStore_full {cache : GeoCache} {ip : CStr} (hfull : ∀ c, (cache c).valid = true)
    (hnew : ∀ c, (cache c).ip ≠ ip.bytes) (country provider : Option CStr) :
    geoCacheStore cache ip country provider = cache := by
  have hnone : (geoSlots ip).find? (stops (geoTable cache) ip.bytes) = none := by
    refine List.find?_eq_none.mpr fun c _ hstop => ?_
    rcases (stops_geoTable cache ip c).mp hstop with hv | hip
    · exact hv (hfull c)
    · exact hnew c hip
  rw [geoCacheStore, geoCacheStoreLoop_eq, hnone]

/-- **The cache is a map.**  After any sequence of stores no two valid entries have one key; what
is found under a key is what the last store for it has left, if the key is among the first 256
distinct ones; and a further key changes nothing when every entry is taken. -/
theorem geoCache_map {stores : List GeoStore} (hkeys : ∀ s ∈ stores, s.ip.bytes.length ≤ 47) :
    (∀ c c', (geoCacheAfter stores c).valid = true → (geoCacheAfter stores c').valid = true →
      (geoCacheAfter stores c).ip = (geoCacheAfter stores c').ip → c = c') ∧
    (∀ key : CStr, (geoCacheFind (geoCacheAfter stores) key).map
        (fun e => (e.country, e.provider)) =
      if key.bytes ∈ (stores.map fun s => s.ip.bytes).eraseDups.take 256 then
        (stores.filter fun s => s.ip.bytes == key.bytes).getLast?.map
          fun s => ((orEmpty s.country).take 31, (orEmpty s.provider).take 63)
      else none) ∧
    (∀ s : GeoStore, (∀ c, (geoCacheAfter stores c).valid = true) →
      (∀ c, (geoCacheAfter stores c).ip ≠ s.ip.bytes) →
        geoCacheStore (geoCacheAfter stores) s.ip s.country s.provider = geoCacheAfter stores) := by
  have hrep := geoCacheAfter_represents hkeys
  refine ⟨fun c c' hc hc' hip => ?_, fun key => ?_, fun s hfull hnew => ?_⟩
  · exact hrep.cell_unique (GeoEntry.toCell_of_valid hc) (GeoEntry.toCell_of_valid hc') hip
  · rw [geoCacheFind_toCell, hrep.find_eq_lookup, OrderedDict.lookup_foldl_setWithin, List.map_map,
      List.filter_map, List.getLast?_map, Option.map_map]
    rfl
  · exact geoCacheStore_full hfull hnew s.country s.provider

/-- Two keys with one hash, the first of them stored again: the second lies one slot further. -/
theorem geoCache_map_collision :
    geoHash [0x61, 0x62] = geoHash [0x62, 0x41] ∧
      (geoCacheFind (geoCacheAfter
        [⟨⟨[0x61, 0x62], by decide⟩, some ⟨[0x4b, 0x52], by decide⟩, none⟩,
          ⟨⟨[0x62, 0x41], by decide⟩, some ⟨[0x44, 0x45], by decide⟩, none⟩,
          ⟨⟨[0x61, 0x62], by decide⟩, some ⟨[0x55, 0x53], by decide⟩, none⟩])
        ⟨[0x62, 0x41], by decide⟩).map (fun e => (e.country, e.provider)) =
          some ([0x44, 0x45], []) :=
  ⟨by decide, ((geoCache_map (by decide)).2.1 _).trans (by decide)⟩

end Nsr
