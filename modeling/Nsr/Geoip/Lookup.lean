import Nsr.Geoip.Cache
import Nsr.Config.Store
import Nsr.Plugin.Annotations
import Nsr.Lib.Roster

/-!
# Lookups of the GeoIP plugin

`web_lookup`, `local_lookup`, `resolve_one` and the file that `handle_init` reads, of
`plugins/geoip/geoip.c`.  The database of IP2Location and the transfers of libcurl are not part of
the repository; what they bring is a parameter.

* `resolveOne`: an address is looked up unless the cache has it, and the outcome is stored.
* `Recalls`: the cache behind a list of the lookups that were made.
* `recalls_resolve`: addresses that are resolved in turn, against a roster with a memory of 256.
-/

namespace Nsr

open Ascii LinearProbing

/-! ## Surroundings -/

/-- The fields of `IP2LocationRecord` that are read. -/
structure IpRecord where
  countryShort : Option CStr
  isp : Option CStr

/-- **What a transfer brings**: the pieces that `curl_write_cb` is given, whether
`curl_easy_perform` says `CURLE_OK`, and the response code. -/
structure Transfer where
  pieces : List Bytes
  ok : Bool
  httpCode : ℤ

/-- **The surroundings of a lookup**: what `IP2Location_get_all` returns, the transfer, where
`curl_easy_init` succeeds, and what the stack holds where `web_lookup` has its buffer. -/
structure LookupEnv where
  record : Option IpRecord
  transfer : Option Transfer
  stack : Bytes

/-! ## The two lookups -/

/-- `json_extract`: the text in `out`, where it succeeds. -/
def jsonExtract (json : Bytes) (key : CStr) (outLen : UInt64) : Option CStr :=
  (objGet json key).bind fun v => (parseStr v.1 v.2 outLen).map .ofField

/-- `sizeof(buf)` in `web_lookup`. -/
abbrev curlBufCap : ℕ := 2048

/-- `curl_write_cb`: the bytes that have been written so far. -/
def curlWriteCb (written piece : Bytes) : Bytes :=
  let total := piece.length
  let total :=
    if written.length + total ≥ curlBufCap then curlBufCap - written.length - 1 else total
  written ++ piece.take total

/-- What `web_lookup` and `local_lookup` leave in `country` and `provider`. -/
def geoFields (country provider : Option CStr) : Option (Bytes × Bytes) :=
  if country.isSome || provider.isSome then
    some ((orEmpty country).take 31, (orEmpty provider).take 63)
  else none

/-- **`web_lookup`**: `country` and `provider`, where it returns true. -/
def webLookup (e : LookupEnv) : Option (Bytes × Bytes) :=
  e.transfer.bind fun t =>
    if t.ok = false ∨ t.httpCode ≠ 200 then none
    else
      let written := t.pieces.foldl curlWriteCb []
      -- without a byte from the transfer the buffer is as the stack left it
      let buf := if written = [] then e.stack else written
      if ascii "\"status\":\"fail\"" <:+: cstr buf then none
      else
        let country := (jsonExtract buf (cs "countryCode") 64).orElse fun _ =>
          jsonExtract buf (cs "country") 64
        geoFields country (jsonExtract buf (cs "isp") 64)

/-- **`local_lookup`**; without a database it returns false. -/
def localLookup (ip2loc : Option Bytes) (e : LookupEnv) : Option (Bytes × Bytes) :=
  if ip2loc = none then none
  else e.record.bind fun rec =>
    geoFields (rec.countryShort.filter fun c => c.bytes ≠ [])
      (rec.isp.filter fun c => c.bytes ≠ [] ∧ c.bytes ≠ ascii "-")

/-- The buffer is never written past its end. -/
theorem length_foldl_curlWriteCb (pieces : List Bytes) {written : Bytes}
    (h : written.length < curlBufCap) :
    (pieces.foldl curlWriteCb written).length < curlBufCap := by
  induction pieces generalizing written with
  | nil => exact h
  | cons piece pieces ih =>
    refine ih ?_
    rw [curlWriteCb, List.length_append, List.length_take]
    split <;> omega

/-! ## The state -/

/-- **`geoip_state_t`**: the path of the database that is open, the cache, and the addresses that
were looked up so far. -/
structure Geoip where
  ip2loc : Option Bytes
  cache : GeoCache
  looked : List CStr

/-- The zeroed state. -/
def Geoip.init : Geoip := ⟨none, geoCacheInit, []⟩

/-- What the lookups find for an address, as it goes into the cache. -/
def geoFound (ip2loc : Option Bytes) (e : LookupEnv) : CStr × CStr :=
  match (localLookup ip2loc e).orElse fun _ => webLookup e with
  | some (country, provider) => (.ofField country, .ofField provider)
  | none => (cs "?", cs "?")

/-- An address that is not passed over. -/
def Resolvable (ip : CStr) : Prop :=
  ip.bytes ≠ [] ∧ ip.bytes ≠ ascii "Reply Received"

instance : DecidablePred Resolvable :=
  fun _ => inferInstanceAs (Decidable (_ ∧ _))

/-- **`resolve_one`.** -/
def Geoip.resolveOne (e : LookupEnv) (ip : CStr) (st : Geoip) : Geoip :=
  if ¬Resolvable ip then st
  else if (geoCacheFind st.cache ip).isSome then st
  else
    let found := geoFound st.ip2loc e
    { st with
      cache := geoCacheStore st.cache ip (some found.1) (some found.2)
      looked := st.looked ++ [ip] }

/-- The path of the database, from the configuration file: the first line that names it. -/
def databasePath (file : Bytes) : Option Bytes :=
  (Config.pieces file).findSome? fun p =>
    (Config.splitEq p).bind fun kv => if kv.1 = ascii "IP2_LOCATION_DB" then some kv.2 else none

/-! ## The lookups that were made -/

/-- **A lookup**: the address, and the country and the provider as they are kept. -/
abbrev Lookup := Bytes × Bytes × Bytes

/-- The lookup of an address. -/
def lookupOf (ip2loc : Option Bytes) (e : LookupEnv) (ip : CStr) : Lookup :=
  let found := geoFound ip2loc e
  (ip.bytes, found.1.bytes.take 31, found.2.bytes.take 63)

/-- **The lookups that the plugin goes by**: those of the first 256 entries. -/
def Recalls (st : Geoip) (lookups : List Lookup) : Prop :=
  st.looked.map CStr.bytes = lookups.map Prod.fst ∧
    st.cache.Holds (lookups.take geoCacheSize)

theorem recalls_init : Recalls .init [] :=
  ⟨rfl, represents_empty geoStart⟩

/-- The cache finds what the first lookups have found. -/
theorem Recalls.find {st : Geoip} {lookups : List Lookup} (h : Recalls st lookups) (ip : CStr) :
    (geoCacheFind st.cache ip).map (fun e => (e.country, e.provider)) =
      (lookups.take geoCacheSize).lookup ip.bytes := by
  rw [geoCacheFind_toCell, h.2.find_eq_lookup]

/-- A new key goes in where there is room. -/
theorem setWithin_take {lookups : List Lookup} {l : Lookup}
    (hnew : l.1 ∉ (lookups.take geoCacheSize).map Prod.fst) :
    OrderedDict.setWithin geoCacheSize (lookups.take geoCacheSize) l.1 l.2 =
      (lookups ++ [l]).take geoCacheSize := by
  rw [OrderedDict.setWithin, List.take_append, List.length_take]
  by_cases hroom : lookups.length < geoCacheSize
  · rw [if_pos (.inr (by omega)), OrderedDict.set, if_neg hnew,
      List.take_of_length_le (l := [l]) (by simp; omega)]
  · rw [if_neg fun h => h.elim hnew (by omega), Nat.sub_eq_zero_of_le (by omega), List.take_zero,
      List.append_nil]

/-- The step: what `resolve_one` does is what a roster does. -/
theorem Recalls.resolveOne {st : Geoip} {lookups : List Lookup} (h : Recalls st lookups)
    (e : LookupEnv) {ip : CStr} (hres : Resolvable ip) (hip : ip.bytes.length ≤ 47) :
    Recalls (st.resolveOne e ip) (lookups ++ Roster.fresh Prod.fst geoCacheSize
      (lookups.map Prod.fst) [lookupOf st.ip2loc e ip]) := by
  have hfind := h.find ip
  rw [Geoip.resolveOne, if_neg (not_not.mpr hres)]
  by_cases hmem : (lookupOf st.ip2loc e ip).1 ∈ (lookups.map Prod.fst).take geoCacheSize
  · have hsome : (geoCacheFind st.cache ip).isSome = true := by
      rw [← Option.isSome_map, hfind, Option.isSome_iff_ne_none]
      rw [← List.map_take] at hmem
      exact mt OrderedDict.lookup_eq_none_iff.mp (not_not.mpr hmem)
    rw [if_pos hsome, Roster.fresh_cons_of_mem hmem, Roster.fresh_nil, List.append_nil]
    exact h
  · have hnone : ¬(geoCacheFind st.cache ip).isSome = true := by
      rw [← Option.isSome_map, hfind, Option.isSome_iff_ne_none, not_not]
      rw [← List.map_take] at hmem
      exact OrderedDict.lookup_eq_none_iff.mpr hmem
    rw [if_neg hnone, Roster.fresh_cons_of_notMem hmem, Roster.fresh_nil]
    refine ⟨?_, ?_⟩
    · rw [List.map_append, List.map_append, h.1]
      rfl
    · rw [← setWithin_take (by rwa [List.map_take]), GeoCache.Holds, geoCacheStore_toCell _ hip]
      exact h.2.store _ _

@[simp] theorem Geoip.resolveOne_ip2loc (e : LookupEnv) (ip : CStr) (st : Geoip) :
    (st.resolveOne e ip).ip2loc = st.ip2loc := by
  rw [Geoip.resolveOne]
  split
  · rfl
  · split <;> rfl

/-- The lookups that a list of addresses asks for, each with its surroundings. -/
def lookupsOf (ip2loc : Option Bytes) (ips : List (CStr × LookupEnv)) : List Lookup :=
  (ips.filter fun a => Resolvable a.1).map fun a => lookupOf ip2loc a.2 a.1

/-- **Addresses that are resolved in turn**: the lookups that are made are those that a roster takes
which remembers the first 256. -/
theorem Recalls.resolve {st : Geoip} {lookups : List Lookup} (h : Recalls st lookups)
    {ips : List (CStr × LookupEnv)} (hips : ∀ a ∈ ips, a.1.bytes.length ≤ 47) :
    Recalls (ips.foldl (fun st a => st.resolveOne a.2 a.1) st) (lookups ++
      Roster.fresh Prod.fst geoCacheSize (lookups.map Prod.fst) (lookupsOf st.ip2loc ips)) := by
  induction ips generalizing st lookups with
  | nil => simpa [lookupsOf] using h
  | cons a ips ih =>
    have hrest := fun b hb => hips b (List.mem_cons_of_mem a hb)
    rw [List.foldl_cons]
    by_cases hres : Resolvable a.1
    · have hstep := h.resolveOne a.2 hres (hips a List.mem_cons_self)
      have hall := ih hstep hrest
      rw [Geoip.resolveOne_ip2loc, List.map_append, List.append_assoc] at hall
      have hcons : lookupsOf st.ip2loc (a :: ips) =
          [lookupOf st.ip2loc a.2 a.1] ++ lookupsOf st.ip2loc ips := by
        simp [lookupsOf, hres]
      rw [hcons, Roster.fresh_append]
      exact hall
    · have hskip : st.resolveOne a.2 a.1 = st := if_pos hres
      have hcons : lookupsOf st.ip2loc (a :: ips) = lookupsOf st.ip2loc ips := by
        simp [lookupsOf, hres]
      rw [hskip, hcons]
      exact ih h hrest

end Nsr
