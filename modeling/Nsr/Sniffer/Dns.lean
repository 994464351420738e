import Nsr.Sniffer.Packet

/-!
# DNS messages

`parse_dns_query_name` and `parse_dns_response_ip` of `plugins/sniffer/src/main.rs`.

* `queryNameLoop`, `parseDnsQueryName`.
* `skipName`, `skipQuestions`, `findAnswer`, `parseDnsResponseIp`.
-/

namespace Nsr.Sniffer

open Checked

/-! ## The first question -/

/-- One round over the labels of a name: the offset, and the name so far.  The loop leaves with the
name, or without one where a label does not fit. -/
def queryNameStep (payload : Bytes) (s : ℕ × Bytes) :
    Except Panic ((ℕ × Bytes) ⊕ Option Bytes) := do
  let (offset, name) := s
  if ¬offset < payload.length then return .inr (some name)
  let labelLen ← byte payload offset
  if labelLen = 0 then return .inr (some name)
  if labelLen &&& 0xC0 = 0xC0 then return .inr (some name)
  let len := labelLen.toNat
  if (← add (← add offset 1) len) > payload.length then return .inr none
  let name := if name = [] then name else name ++ ascii "."
  let label ← slice payload (← add offset 1) (← add (← add offset 1) len)
  return .inl (← add offset (← add 1 len), name ++ Utf8.lossy label)

theorem queryNameStep_decreases (payload : Bytes) (s : ℕ × Bytes) :
    Returns (queryNameStep payload s)
      (Below (fun s : ℕ × Bytes => payload.length - s.1) (payload.length - s.1)) := by
  obtain ⟨offset, name⟩ := s
  unfold queryNameStep
  refine .ite (fun _ => .pure trivial) fun hin => .skip fun l => ?_
  refine .ite (fun _ => .pure trivial) fun _ => .ite (fun _ => .pure trivial) fun _ => ?_
  refine .skip fun _ => .skip fun _ => .ite (fun _ => .pure trivial) fun _ => ?_
  refine .skip fun _ => .skip fun _ => .skip fun _ => .skip fun _ => ?_
  refine (add_returns _ _).bind fun _ hlen => (add_returns _ _).bind fun _ hnext => .pure ?_
  rw [Below]
  dsimp only at hin ⊢
  omega

/-- The loop of `parse_dns_query_name`. -/
def queryNameLoop (payload : Bytes) :
    BoundedLoop.Loop (ℕ × Bytes) (Except Panic (Option Bytes)) :=
  loop (queryNameStep payload) (fun s => payload.length - s.1) (queryNameStep_decreases payload)

/-- **`parse_dns_query_name`.** -/
def parseDnsQueryName (payload : Bytes) : Except Panic (Option Bytes) := do
  if payload.length < 12 then return none
  let qdcount := (← be16 payload 4).toNat
  if qdcount = 0 then return none
  match ← (queryNameLoop payload).run (12, []) with
  | none => return none
  | some name => return if name = [] then none else some name

/-! ## The first address -/

/-- One round over the labels of a name that is passed over. -/
def skipNameStep (payload : Bytes) (offset : ℕ) : Except Panic (ℕ ⊕ ℕ) := do
  if ¬offset < payload.length then return .inr offset
  let l ← byte payload offset
  if l = 0 then return .inr (← add offset 1)
  if l &&& 0xC0 = 0xC0 then return .inr (← add offset 2)
  return .inl (← add offset (← add 1 l.toNat))

theorem skipNameStep_decreases (payload : Bytes) (offset : ℕ) :
    Returns (skipNameStep payload offset)
      (Below (fun offset => payload.length - offset) (payload.length - offset)) := by
  unfold skipNameStep
  refine .ite (fun _ => .pure trivial) fun hin => .skip fun l => ?_
  refine .ite (fun _ => .skip fun _ => .pure trivial) fun _ => ?_
  refine .ite (fun _ => .skip fun _ => .pure trivial) fun _ => ?_
  refine (add_returns _ _).bind fun _ hlen => (add_returns _ _).bind fun _ hnext => .pure ?_
  rw [Below]
  omega

/-- The loops that pass over a name. -/
def skipName (payload : Bytes) : BoundedLoop.Loop ℕ (Except Panic ℕ) :=
  loop (skipNameStep payload) (fun offset => payload.length - offset)
    (skipNameStep_decreases payload)

/-- The loop over the questions: the offset behind them. -/
def skipQuestions (payload : Bytes) : ℕ → ℕ → Except Panic (Option ℕ)
  | 0, offset => return some offset
  | n + 1, offset => do
    let offset ← (skipName payload).run offset
    if (← add offset 4) > payload.length then return none
    skipQuestions payload n (← add offset 4)

/-- The loop over the answers. -/
def findAnswer (payload : Bytes) : ℕ → ℕ → Except Panic (Option Bytes)
  | 0, _ => return none
  | n + 1, offset => do
    let offset ← (skipName payload).run offset
    if (← add offset 10) > payload.length then return none
    let rtype ← be16 payload offset
    let rdlength := (← be16 payload (← add offset 8)).toNat
    let offset ← add offset 10
    if (← add offset rdlength) > payload.length then return none
    if rtype = 1 ∧ rdlength = 4 then
      return some (ipv4ToString (← copyFromSlice 4 (← slice payload offset (← add offset 4))))
    if rtype = 28 ∧ rdlength = 16 then
      return some (ipv6ToString (← copyFromSlice 16 (← slice payload offset (← add offset 16))))
    findAnswer payload n (← add offset rdlength)

/-- **`parse_dns_response_ip`.** -/
def parseDnsResponseIp (payload : Bytes) : Except Panic (Option Bytes) := do
  if payload.length < 12 then return none
  let qdcount := (← be16 payload 4).toNat
  let ancount := (← be16 payload 6).toNat
  if ancount = 0 then return none
  match ← skipQuestions payload qdcount 12 with
  | none => return none
  | some offset => findAnswer payload ancount offset

end Nsr.Sniffer
