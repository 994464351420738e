import Nsr.Plugin.Entry
import Nsr.Json.Whitespace

/-!
# Requests on the wire

What a plugin reads out of the lines the host writes.  A request is built by `build_request` around
parameters that were encoded before; whatever these are, the number of the request stands in front
of them and is found (`lineId_buildRequest`).  The parameters of `on_key` come back as the key
event they were made from (`wireKey_buildRequest`).
-/

namespace Nsr

open Ascii

/-- The members of a request before its parameters. -/
def requestMembers (method : CStr) (id : ℤ) : List (CStr × Json) :=
  [(cs "jsonrpc", .str (cs "2.0")), (cs "id", .int (Int64.ofInt id)), (cs "method", .str method)]

/-- A buffer that ends in a colon takes the next value without a comma. -/
theorem sep_key (jb : JsonBuf) (k : CStr) : (jb.key k).sep = [] :=
  JsonBuf.sep_of_open rfl (.inr (.inr (.inl rfl)))

/-- **What `build_request` has written when it comes to the parameters.** -/
theorem requestHead_bytes (method : CStr) (id : ℤ) :
    (requestHead method id).bytes = objHead (requestMembers method id) (cs "params") := by
  -- with `null` for the parameters the calls are those of a tree
  have hcalls : encode (.obj (requestMembers method id ++ [(cs "params", .null)])) =
      (requestHead method id).null.objEnd.bytes := rfl
  have hnull : (requestHead method id).null.objEnd.bytes =
      (requestHead method id).bytes ++ (nullBytes ++ [rbrace]) := by
    rw [JsonBuf.objEnd, JsonBuf.appendChar_bytes, JsonBuf.null, JsonBuf.appendRaw_bytes,
      JsonBuf.separate_bytes, requestHead, sep_key, List.append_nil, List.append_assoc]
  have hsplit := render_obj_split (requestMembers method id) (cs "params") .null [] []
  rw [← encode_eq_render, List.append_nil, hcalls, hnull] at hsplit
  exact List.append_cancel_right hsplit

/-- A request is its head, and then whatever the parameters are. -/
theorem buildRequest_eq (method : CStr) (params : Bytes) (id : ℤ) :
    ∃ rest, buildRequest method params id =
      objHead (requestMembers method id) (cs "params") ++ rest := by
  rw [← requestHead_bytes, buildRequest]
  split
  · exact ⟨params ++ [rbrace], by simp [JsonBuf.objEnd]⟩
  · refine ⟨[lbrace, rbrace, rbrace], ?_⟩
    simp [JsonBuf.objEnd, JsonBuf.objStart, requestHead, sep_key]

theorem buildRequest_render (method : CStr) (t : Json) (id : ℤ) :
    buildRequest method (render t) id =
      render (.obj (requestMembers method id ++ [(cs "params", t)])) := by
  have hne : 0 < (render t).length := by
    obtain ⟨pre, c, hc, -⟩ := closed_render t
    rw [hc]
    simp
  have hsplit := render_obj_split (requestMembers method id) (cs "params") t [] []
  rw [List.append_nil] at hsplit
  rw [buildRequest, if_pos hne, hsplit, ← requestHead_bytes]
  simp [JsonBuf.objEnd, objRest, renderMembers]

/-! ## The number -/

/-- One round of the lookup at a serialised member. -/
theorem objGetRound_render (key k : CStr) (v : Json) {rest : Bytes} (hd : Delimited rest) :
    objGetRound key (literal k ++ [colon] ++ render v ++ rest) =
      if k.bytes.flatMap escape = key.bytes then .inr (some (render v ++ rest, (render v).length))
      else if peek rest = comma then .inl rest.tail
      else .inr none := by
  have h := objGetRound_member key ⟨.empty, k.units, .empty, .empty⟩ v.text .empty hd
  have hkey : (⟨.empty, k.units, .empty, .empty⟩ : Key).bytes = literal k ++ [colon] := by
    simp [Key.bytes, unitsBytes_units, literal]
  have hvalue : valueBytes v.text .empty = render v := by
    rw [← bytes_text]
    cases v <;> first | rfl | exact List.append_nil _
  rwa [hkey, hvalue, bytes_text, Ws.empty_bytes, List.append_nil, List.append_nil,
    unitsBytes_units] at h

theorem printable_objHead (pre : List (CStr × Json)) (k : CStr) : Printable (objHead pre k) := by
  refine printable_append (printable_append (printable_append (by decide +kernel) ?_)
    (printable_literal k)) (by decide +kernel)
  intro c hc
  obtain ⟨x, hx, hc⟩ := List.mem_flatMap.mp hc
  exact printable_append (printable_renderMembers pre x hx) (by decide +kernel) c hc

theorem cstr_append {bs : Bytes} (h : Printable bs) (cs : Bytes) :
    cstr (bs ++ cs) = bs ++ cstr cs := by
  refine List.takeWhile_append_of_pos fun c hc => ?_
  have hc' := h c hc
  simp only [decide_eq_true_eq]
  rintro rfl
  exact absurd hc' (by decide)

/-- The lookup of the number does not get as far as the parameters. -/
theorem objGet_id (method : CStr) (id : ℤ) (rest : Bytes) :
    ∃ rest', objGet (objHead (requestMembers method id) (cs "params") ++ rest) (cs "id") =
      some (render (.int (Int64.ofInt id)) ++ rest', (render (.int (Int64.ofInt id))).length) := by
  obtain ⟨tail, htail⟩ : ∃ tail, objHead (requestMembers method id) (cs "params") ++ rest =
      lbrace :: (literal (cs "jsonrpc") ++ [colon] ++ render (.str (cs "2.0")) ++
        comma :: (literal (cs "id") ++ [colon] ++ render (.int (Int64.ofInt id)) ++
          comma :: tail)) := by
    refine ⟨literal (cs "method") ++ [colon] ++ render (.str method) ++ [comma] ++
      literal (cs "params") ++ [colon] ++ rest, ?_⟩
    simp [objHead, requestMembers, renderMembers]
  have hfirst := objGetRound_render (cs "id") (cs "jsonrpc") (.str (cs "2.0"))
    (delimited_comma (literal (cs "id") ++ [colon] ++ render (.int (Int64.ofInt id)) ++
      comma :: tail))
  have hsecond := objGetRound_render (cs "id") (cs "id") (.int (Int64.ofInt id))
    (delimited_comma tail)
  rw [if_neg (by decide), peek_cons, if_pos rfl, List.tail_cons] at hfirst
  rw [if_pos (by decide)] at hsecond
  refine ⟨comma :: tail, ?_⟩
  rw [htail, objGet, skipWs_cons rfl, peek_cons, if_neg (by decide), List.tail_cons,
    objGetLoop_run, hfirst, Sum.elim_inl, objGetLoop_run, hsecond]
  rfl

/-- **The number of a request stands on the wire.** -/
theorem lineId_buildRequest (method : CStr) (params : Bytes) {id : ℤ} (h : InRange id) :
    lineId (buildRequest method params id) = id := by
  obtain ⟨rest, hrest⟩ := buildRequest_eq method params id
  obtain ⟨rest', hget⟩ := objGet_id method id (cstr rest)
  have hid : (Int64.ofInt id).toInt = id := Int64.toInt_ofInt_of_le h.1 (by have := h.2; omega)
  rw [lineId, hrest, cstr_append (printable_objHead _ _), hget]
  dsimp only
  rw [parseInt_render, hid]

/-! ## The keys -/

/-- The tree of the parameters of `on_key`. -/
def keyTree (ev : KeyEvent) : Json :=
  .obj ((cs "key", .int ev.ch.toInt64) ::
    if ev.modalInput then [(cs "modal_input", .bool true)] else [])

theorem buildKeyParams_eq (ev : KeyEvent) : Host.buildKeyParams ev = render (keyTree ev) := by
  rw [← encode_eq_render]
  obtain ⟨ch, modal⟩ := ev
  cases modal <;> rfl

/-- **The key event that a line asks the plugin to handle.** -/
def wireKey (line : Bytes) : Option KeyEvent :=
  (objGet (cstr line) (cs "params")).bind fun params =>
    (getInt params.1 (cs "key")).map fun ch =>
      ⟨Int32.ofInt ch, (getBool params.1 (cs "modal_input")).getD false⟩

/-- **A key event comes through the wire as it is.** -/
theorem wireKey_buildRequest (method : CStr) (ev : KeyEvent) (id : ℤ) :
    wireKey (buildRequest method (Host.buildKeyParams ev) id) = some ev := by
  have hcstr : cstr (render (.obj (requestMembers method id ++ [(cs "params", keyTree ev)]))) =
      render (.obj (requestMembers method id ++ [(cs "params", keyTree ev)])) ++ [] := by
    have h := cstr_append (printable_render (.obj (requestMembers method id ++
      [(cs "params", keyTree ev)]))) []
    rwa [List.append_nil] at h
  have hp : ∀ b ∈ (cs "params").bytes, escape b = [b] := by decide +kernel
  have hparams := objGet_render_member hp (requestMembers method id)
    (by simp [requestMembers]; decide) (keyTree ev) [] []
  have hch : Int32.ofInt ev.ch.toInt64.toInt = ev.ch := by
    rw [Int32.toInt_toInt64, Int32.ofInt_toInt]
  have hk : ∀ b ∈ (cs "key").bytes, escape b = [b] := by decide +kernel
  have hm : ∀ b ∈ (cs "modal_input").bytes, escape b = [b] := by decide +kernel
  rw [wireKey, buildKeyParams_eq, buildRequest_render, hcstr, hparams, Option.bind_some]
  obtain ⟨ch, modal⟩ := ev
  dsimp only at hch ⊢
  cases modal with
  | true =>
    have hkey := getInt_render hk [] (by simp) ch.toInt64 [(cs "modal_input", .bool true)]
      (objRest [] [])
    have hmodal := getBool_render hm [(cs "key", .int ch.toInt64)] (by simp; decide) true []
      (objRest [] [])
    rw [List.nil_append] at hkey
    rw [List.singleton_append] at hmodal
    rw [keyTree, if_pos rfl, hkey, hmodal, Option.map_some, hch]
    rfl
  | false =>
    have hkey := getInt_render hk [] (by simp) ch.toInt64 [] (objRest [] [])
    have hmodal := getBool_render_none hm [(cs "key", .int ch.toInt64)] (by simp; decide)
      (objRest [] [])
    rw [List.nil_append] at hkey
    rw [keyTree, if_neg (by simp), hkey, hmodal, Option.map_some, hch]
    rfl

/-! ## Keys -/

/-- The keys under which the two sides look. -/
@[simp] def wireNames : List String :=
  ["method", "params", "id", "result", "hops", "lines", "annotations", "hop_idx", "addr", "rtt_us",
    "recv", "text", "color", "x", "y", "focused_addr", "config_path"]

/-- They are written as they are. -/
theorem plainName {name : String} (h : name ∈ wireNames) :
    ∀ b ∈ (cs name).bytes, escape b = [b] := by
  have hall : ∀ k ∈ wireNames.map cs, ∀ b ∈ k.bytes, escape b = [b] := by decide +kernel
  exact hall _ (List.mem_map_of_mem h)

end Nsr
