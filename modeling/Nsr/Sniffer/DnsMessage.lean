import Nsr.Lib.Layout
import Nsr.Sniffer.Dns

/-!
# Well-formed DNS messages

What the sniffer reads of a DNS message with questions and answers: the name in the first question,
and the first address in the answers.  A name is a sequence of labels that ends with the root label
or, in an answer, with a pointer to another name; the parsers do not follow pointers.

* `Label`, `NameEnd`, `Question`, `Answer`, `DnsMessage`: messages and their bytes.
* `queryNameLoop_at`, `skipName_at`: the loops over the labels of a name.
* `skipQuestions_at`, `findAnswer_at`: the loops over the records.
* `DnsMessage.decode`: both parsers return what the message says.
-/

namespace Nsr.Sniffer

open Checked

/-! ## Messages -/

/-- A label. -/
structure Label where
  bytes : Bytes
  ascii : ∀ b ∈ bytes, b < 0x80
  nonempty : bytes ≠ []
  short : bytes.length < 64

def encodeLabels (labels : List Label) : Bytes :=
  labels.flatMap fun l => vec8 l.bytes

theorem encodeLabels_nil : encodeLabels [] = [] :=
  rfl

theorem encodeLabels_cons (l : Label) (labels : List Label) :
    encodeLabels (l :: labels) = vec8 l.bytes ++ encodeLabels labels :=
  rfl

/-- How a name ends. -/
inductive NameEnd where
  | root
  | pointer (offset : Fin (2 ^ 14))

def NameEnd.encode : NameEnd → Bytes
  | root => [0]
  | pointer offset => [UInt8.ofNat (0xC0 + offset.val / 256), UInt8.ofNat offset.val]

/-- A question. -/
structure Question where
  labels : List Label
  type : UInt16
  cls : UInt16

def Question.encode (q : Question) : Bytes :=
  encodeLabels q.labels ++ (NameEnd.root.encode ++ (bytes16 q.type ++ bytes16 q.cls))

/-- A resource record. -/
structure Answer where
  labels : List Label
  term : NameEnd
  type : UInt16
  cls : UInt16
  ttlHigh : UInt16
  ttlLow : UInt16
  data : Bytes
  short : data.length < 2 ^ 16

def Answer.encode (a : Answer) : Bytes :=
  encodeLabels a.labels ++ (a.term.encode ++ (bytes16 a.type ++ (bytes16 a.cls ++
    (bytes16 a.ttlHigh ++ (bytes16 a.ttlLow ++ vec16 a.data)))))

/-- The address in a record of type A or AAAA, as text. -/
def Answer.address (a : Answer) : Option Bytes :=
  if a.type = 1 ∧ a.data.length = 4 then some (ipv4ToString a.data)
  else if a.type = 28 ∧ a.data.length = 16 then some (ipv6ToString a.data)
  else none

/-- A message with at least one question, whose name is not empty.  `more` are the records of the
other sections. -/
structure DnsMessage where
  id : UInt16
  flags : UInt16
  nscount : UInt16
  arcount : UInt16
  first : Question
  questions : List Question
  answers : List Answer
  more : Bytes
  named : first.labels ≠ []
  qdcount : questions.length + 1 < 2 ^ 16
  ancount : answers.length < 2 ^ 16

namespace DnsMessage

def encodeQuestions (qs : List Question) : Bytes :=
  qs.flatMap Question.encode

def encodeAnswers (as : List Answer) : Bytes :=
  as.flatMap Answer.encode

/-- The bytes of the message. -/
def encode (m : DnsMessage) : Bytes :=
  bytes16 m.id ++ (bytes16 m.flags ++ (bytes16 (UInt16.ofNat (m.questions.length + 1)) ++
    (bytes16 (UInt16.ofNat m.answers.length) ++ (bytes16 m.nscount ++ (bytes16 m.arcount ++
      (encodeQuestions (m.first :: m.questions) ++ (encodeAnswers m.answers ++ m.more)))))))

/-- The name in the first question: its labels with dots between them. -/
def name (m : DnsMessage) : Bytes :=
  (ascii ".").intercalate (m.first.labels.map Label.bytes)

/-- The first address in the answers. -/
def address (m : DnsMessage) : Option Bytes :=
  m.answers.findSome? Answer.address

theorem encodeQuestions_cons (q : Question) (qs : List Question) :
    encodeQuestions (q :: qs) = q.encode ++ encodeQuestions qs :=
  rfl

theorem encodeAnswers_cons (a : Answer) (as : List Answer) :
    encodeAnswers (a :: as) = a.encode ++ encodeAnswers as :=
  rfl

end DnsMessage

theorem Question.length_encode (q : Question) :
    q.encode.length = (encodeLabels q.labels).length + NameEnd.root.encode.length + 4 := by
  rw [encode, List.length_append, List.length_append, List.length_append, length_bytes16,
    length_bytes16]
  omega

theorem Answer.length_encode (a : Answer) :
    a.encode.length =
      (encodeLabels a.labels).length + a.term.encode.length + 10 + a.data.length := by
  rw [encode]
  simp only [List.length_append, length_bytes16, length_vec16]
  omega

/-! ## Names -/

/-- What the loops see of a label: its length, which is no pointer and not the root. -/
theorem Label.at {payload : Bytes} {l : Label} {offset : ℕ} (h : At payload offset (vec8 l.bytes)) :
    ∃ n : UInt8, byte payload offset = .ok n ∧ n.toNat = l.bytes.length ∧ n ≠ 0 ∧
      ¬n &&& 0xC0 = 0xC0 ∧ At payload (offset + 1) l.bytes := by
  have hshort := l.short
  have hpos := List.length_pos_iff.mpr l.nonempty
  obtain ⟨n, hn, hlen, hat⟩ := h.vec8 (by omega)
  have hlow : ∀ k < 64, ¬UInt8.ofNat k &&& 0xC0 = 0xC0 := by decide +kernel
  refine ⟨n, hn, hlen, ?_, ?_, hat⟩
  · rintro rfl
    rw [UInt8.toNat_zero] at hlen
    omega
  · rw [← UInt8.ofNat_toNat (x := n)]
    exact hlow n.toNat (by omega)

theorem pointer_byte (offset : Fin (2 ^ 14)) :
    UInt8.ofNat (0xC0 + offset.val / 256) ≠ 0 ∧
      UInt8.ofNat (0xC0 + offset.val / 256) &&& 0xC0 = 0xC0 := by
  have hall : ∀ k < 64, UInt8.ofNat (0xC0 + k) ≠ 0 ∧ UInt8.ofNat (0xC0 + k) &&& 0xC0 = 0xC0 := by
    decide +kernel
  exact hall _ (by omega)

section Names

variable {payload : Bytes} (hsize : payload.length < 2 ^ 63)

include hsize

/-- **A name is passed over.** -/
theorem skipName_at {labels : List Label} {term : NameEnd} {x : Bytes} {offset : ℕ}
    (h : At payload offset (encodeLabels labels ++ (term.encode ++ x))) :
    (skipName payload).run offset =
      .ok (offset + (encodeLabels labels).length + term.encode.length) := by
  induction labels generalizing offset with
  | nil =>
    rw [encodeLabels_nil, List.nil_append] at h
    rw [encodeLabels_nil, List.length_nil, Nat.add_zero]
    have hle := h.le
    cases term with
    | root =>
      rw [NameEnd.encode] at h hle ⊢
      rw [List.length_append, List.length_singleton] at hle
      refine run_inr ?_
      rw [skipNameStep, if_neg (by omega), bind_ok h.byte, if_pos rfl,
        bind_ok (add_to rfl (show offset + 1 < 2 ^ 64 by omega))]
      rfl
    | pointer target =>
      rw [NameEnd.encode] at h hle ⊢
      simp only [List.length_append, List.length_cons, List.length_nil] at hle
      obtain ⟨hzero, hpointer⟩ := pointer_byte target
      refine run_inr ?_
      rw [skipNameStep, if_neg (by omega), bind_ok h.byte, if_neg hzero, if_pos hpointer,
        bind_ok (add_to rfl (show offset + 2 < 2 ^ 64 by omega))]
      rfl
  | cons l labels ih =>
    rw [encodeLabels_cons, List.append_assoc] at h
    rw [encodeLabels_cons, List.length_append, ← Nat.add_assoc]
    have hle := h.le
    rw [List.length_append, length_vec8] at hle
    obtain ⟨n, hn, hlen, hzero, hpointer, -⟩ := Label.at h.left
    have hstep : skipNameStep payload offset = .ok (.inl (offset + (vec8 l.bytes).length)) := by
      rw [skipNameStep, if_neg (by omega), bind_ok hn, if_neg hzero, if_neg hpointer, length_vec8,
        bind_ok (add_to (show 1 + n.toNat = 1 + l.bytes.length by omega) (by omega)),
        bind_ok (add_to rfl (show offset + (1 + l.bytes.length) < 2 ^ 64 by omega))]
      rfl
    exact (run_inl hstep).trans (ih (h.right rfl))

/-- A name with labels behind it, and dots between them. -/
def appendLabels (name : Bytes) (labels : List Label) : Bytes :=
  labels.foldl (fun name l => (if name = [] then name else name ++ ascii ".") ++ l.bytes) name

/-- **The labels of the name are read.** -/
theorem queryNameLoop_at {labels : List Label} {x : Bytes} {offset : ℕ} {name : Bytes}
    (h : At payload offset (encodeLabels labels ++ (NameEnd.root.encode ++ x))) :
    (queryNameLoop payload).run (offset, name) = .ok (some (appendLabels name labels)) := by
  induction labels generalizing offset name with
  | nil =>
    rw [encodeLabels_nil, List.nil_append, NameEnd.encode] at h
    have hle := h.le
    rw [List.length_append, List.length_singleton] at hle
    refine run_inr ?_
    unfold queryNameStep
    dsimp only
    rw [if_neg (by omega), bind_ok h.byte, if_pos rfl]
    rfl
  | cons l labels ih =>
    rw [encodeLabels_cons, List.append_assoc] at h
    have hle := h.le
    rw [List.length_append, length_vec8] at hle
    obtain ⟨n, hn, hlen, hzero, hpointer, hbytes⟩ := Label.at h.left
    have hslice : slice payload (offset + 1) (offset + 1 + n.toNat) = .ok l.bytes :=
      hbytes.slice (by rw [hlen])
    have hstep : queryNameStep payload (offset, name) =
        .ok (.inl (offset + (vec8 l.bytes).length,
          (if name = [] then name else name ++ ascii ".") ++ l.bytes)) := by
      unfold queryNameStep
      dsimp only
      rw [if_neg (by omega), bind_ok hn, if_neg hzero, if_neg hpointer, length_vec8,
        bind_ok (add_to rfl (show offset + 1 < 2 ^ 64 by omega)),
        bind_ok (add_to rfl (show offset + 1 + n.toNat < 2 ^ 64 by omega)), if_neg (by omega),
        bind_ok (add_to rfl (show offset + 1 < 2 ^ 64 by omega)),
        bind_ok (add_to rfl (show offset + 1 < 2 ^ 64 by omega)),
        bind_ok (add_to rfl (show offset + 1 + n.toNat < 2 ^ 64 by omega)), bind_ok hslice,
        Utf8.lossy_ascii l.ascii,
        bind_ok (add_to (show 1 + n.toNat = 1 + l.bytes.length by omega) (by omega)),
        bind_ok (add_to rfl (show offset + (1 + l.bytes.length) < 2 ^ 64 by omega))]
      rfl
    exact (run_inl hstep).trans (ih (h.right rfl))

/-! ## Records -/

/-- **The questions are passed over.** -/
theorem skipQuestions_at {qs : List Question} {x : Bytes} {offset : ℕ}
    (h : At payload offset (DnsMessage.encodeQuestions qs ++ x)) :
    skipQuestions payload qs.length offset =
      .ok (some (offset + (DnsMessage.encodeQuestions qs).length)) := by
  induction qs generalizing offset with
  | nil => rfl
  | cons q qs ih =>
    rw [DnsMessage.encodeQuestions_cons, List.append_assoc] at h
    have hq := h.left
    have hle := hq.le
    rw [Question.encode] at hq
    have hend : offset + (encodeLabels q.labels).length + NameEnd.root.encode.length + 4 =
        offset + q.encode.length := by
      rw [Question.length_encode]
      omega
    rw [DnsMessage.encodeQuestions_cons, List.length_append, ← Nat.add_assoc, List.length_cons,
      skipQuestions, bind_ok (skipName_at hsize hq), bind_ok (add_to hend (by omega)),
      if_neg (by omega), bind_ok (add_to hend (by omega))]
    exact ih (h.right rfl)

/-- **The first address is found.** -/
theorem findAnswer_at {as : List Answer} {x : Bytes} {offset : ℕ}
    (h : At payload offset (DnsMessage.encodeAnswers as ++ x)) :
    findAnswer payload as.length offset = .ok (as.findSome? Answer.address) := by
  induction as generalizing offset with
  | nil => rfl
  | cons a as ih =>
    rw [DnsMessage.encodeAnswers_cons, List.append_assoc] at h
    have ha := h.left
    have hle := ha.le
    rw [Answer.encode] at ha
    have hlen := a.length_encode
    set off := offset + (encodeLabels a.labels).length + a.term.encode.length with hoff
    have htype := (ha.right rfl).right (j := off) rfl
    have hdlen := (((htype.right (j := off + 2) rfl).right (j := off + 4) rfl).right
      (j := off + 6) rfl).right (j := off + 8) rfl
    obtain ⟨n, hn, hnlen, hdata⟩ := hdlen.vec16 hsize a.short
    rw [List.length_cons, findAnswer, bind_ok (skipName_at hsize ha), ← hoff,
      bind_ok (add_to rfl (show off + 10 < 2 ^ 64 by omega)), if_neg (by omega),
      bind_ok (htype.be16 hsize), bind_ok (add_to rfl (show off + 8 < 2 ^ 64 by omega)),
      bind_ok hn, bind_ok (add_to rfl (show off + 10 < 2 ^ 64 by omega)), hnlen,
      bind_ok (add_to (show off + 10 + a.data.length = offset + a.encode.length by omega)
        (by omega)), if_neg (by omega), List.findSome?_cons, Answer.address]
    have hcopy : ∀ k, a.data.length = k →
        copyFromSlice k a.data = .ok a.data := fun k hk => if_pos hk
    by_cases hA : a.type = 1 ∧ a.data.length = 4
    · rw [if_pos hA, if_pos hA,
        bind_ok (add_to rfl (show off + 8 + 2 + 4 < 2 ^ 64 by omega)),
        bind_ok (hdata.slice (by rw [hA.2])), bind_ok (hcopy 4 hA.2)]
      rfl
    by_cases hAAAA : a.type = 28 ∧ a.data.length = 16
    · rw [if_neg hA, if_neg hA, if_pos hAAAA, if_pos hAAAA,
        bind_ok (add_to rfl (show off + 8 + 2 + 16 < 2 ^ 64 by omega)),
        bind_ok (hdata.slice (by rw [hAAAA.2])), bind_ok (hcopy 16 hAAAA.2)]
      rfl
    · rw [if_neg hA, if_neg hA, if_neg hAAAA, if_neg hAAAA,
        bind_ok (add_to (show off + 10 + a.data.length = offset + a.encode.length by omega)
          (by omega))]
      exact ih (h.right rfl)

end Names

namespace DnsMessage

/-- Labels behind a name that is not empty. -/
theorem appendLabels_of_ne_nil {name : Bytes} (hname : name ≠ []) (labels : List Label) :
    appendLabels name labels = name ++ labels.flatMap fun l => ascii "." ++ l.bytes := by
  induction labels generalizing name with
  | nil => exact (List.append_nil name).symm
  | cons l labels ih =>
    have hne : (name ++ ascii ".") ++ l.bytes ≠ [] := by simp [hname]
    rw [appendLabels, List.foldl_cons, if_neg hname, List.flatMap_cons, ← List.append_assoc,
      ← List.append_assoc]
    exact ih hne

theorem intercalate_cons (sep x : Bytes) (xs : List Bytes) :
    sep.intercalate (x :: xs) = x ++ xs.flatMap (sep ++ ·) := by
  induction xs generalizing x with
  | nil => simp
  | cons y ys ih =>
    rw [List.intercalate_cons_cons, ih, List.flatMap_cons, List.append_assoc, List.append_assoc]

/-- The labels of a name, with dots between them. -/
theorem appendLabels_nil (labels : List Label) :
    appendLabels [] labels = (ascii ".").intercalate (labels.map Label.bytes) := by
  cases labels with
  | nil => rfl
  | cons l labels =>
    rw [appendLabels, List.foldl_cons, if_pos rfl, List.nil_append, List.map_cons,
      intercalate_cons, List.flatMap_map]
    exact appendLabels_of_ne_nil l.nonempty labels

theorem appendLabels_ne_nil {labels : List Label} (h : labels ≠ []) :
    appendLabels [] labels ≠ [] := by
  cases labels with
  | nil => exact absurd rfl h
  | cons l labels =>
    rw [appendLabels_nil, List.map_cons, intercalate_cons]
    simp [l.nonempty]

section

variable (m : DnsMessage) (hsize : m.encode.length < 2 ^ 63)

include hsize

/-- What stands in the header, and where the questions start. -/
theorem header_at : 12 ≤ m.encode.length ∧
    (∃ n, be16 m.encode 4 = .ok n ∧ n.toNat = m.questions.length + 1) ∧
    (∃ n, be16 m.encode 6 = .ok n ∧ n.toNat = m.answers.length) ∧
    At m.encode 12 (encodeQuestions (m.first :: m.questions) ++
      (encodeAnswers m.answers ++ m.more)) := by
  have h₄ := ((At.whole m.encode).right (j := 2) rfl).right (j := 4) rfl
  have h₆ := At.right h₄ (j := 6) rfl
  have h₁₂ := ((At.right h₆ (j := 8) rfl).right (j := 10) rfl).right (j := 12) rfl
  refine ⟨?_, ⟨_, h₄.be16 hsize, ?_⟩, ⟨_, h₆.be16 hsize, ?_⟩, h₁₂⟩
  · have hle := h₁₂.le
    omega
  · exact UInt16.toNat_ofNat_of_lt m.qdcount
  · exact UInt16.toNat_ofNat_of_lt m.ancount

theorem parseDnsQueryName_eq : parseDnsQueryName m.encode = .ok (some m.name) := by
  obtain ⟨hlen, ⟨n, hn, hnlen⟩, -, hat⟩ := m.header_at hsize
  rw [encodeQuestions_cons, List.append_assoc, Question.encode, List.append_assoc,
    List.append_assoc] at hat
  have hname := appendLabels_ne_nil m.named
  rw [parseDnsQueryName, if_neg (by omega), bind_ok hn, if_neg (by omega),
    bind_ok (queryNameLoop_at hsize hat)]
  dsimp only
  rw [if_neg hname, appendLabels_nil]
  rfl

theorem parseDnsResponseIp_eq : parseDnsResponseIp m.encode = .ok m.address := by
  obtain ⟨hlen, ⟨n, hn, hnlen⟩, ⟨k, hk, hklen⟩, hat⟩ := m.header_at hsize
  rw [parseDnsResponseIp, if_neg (by omega), bind_ok hn, bind_ok hk, hnlen, hklen]
  dsimp only
  split
  next hnone =>
    rw [address, List.length_eq_zero_iff.mp hnone]
    rfl
  next hsome =>
    have hskip := skipQuestions_at hsize hat
    rw [List.length_cons] at hskip
    rw [bind_ok hskip]
    exact findAnswer_at hsize (hat.right rfl)

omit hsize in
/-- **DNS messages are decoded.**  For every message with at least one question, the first one with
a name, the sniffer finds the labels of that name with dots between them; and the address of the
first answer that holds one, or none where no answer does. -/
theorem decode (hsize : m.encode.length < 2 ^ 63) :
    parseDnsQueryName m.encode = .ok (some m.name) ∧
      parseDnsResponseIp m.encode = .ok m.address :=
  ⟨m.parseDnsQueryName_eq hsize, m.parseDnsResponseIp_eq hsize⟩

end

/-- The labels `x` and `y`. -/
def labelX : Label := ⟨[120], List.forall_mem_singleton.mpr (by decide), by decide, by decide⟩

def labelY : Label := ⟨[121], List.forall_mem_singleton.mpr (by decide), by decide, by decide⟩

/-- A response with two answers for `x.y`: another name, and an address. -/
def response : DnsMessage where
  id := 7
  flags := 0x8180
  nscount := 0
  arcount := 0
  first := ⟨[labelX, labelY], 1, 1⟩
  questions := []
  answers := [⟨[], .pointer 12, 5, 1, 0, 60, [0xC0, 12], by decide⟩,
    ⟨[labelY], .pointer 12, 1, 1, 0, 60, [192, 0, 2, 1], by decide⟩]
  more := []
  named := List.cons_ne_nil _ _
  qdcount := by decide
  ancount := by decide

/-- The name and the address are found. -/
theorem decode_response : parseDnsQueryName response.encode = .ok (some (ascii "x.y")) ∧
    parseDnsResponseIp response.encode = .ok (some (ascii "192.0.2.1")) := by
  have hname : response.name = ascii "x.y" := by decide +kernel
  have haddress : response.address = some (ascii "192.0.2.1") := by decide +kernel
  have hdecode := decode response (by decide +kernel)
  rw [hname, haddress] at hdecode
  exact hdecode

end DnsMessage

end Nsr.Sniffer
