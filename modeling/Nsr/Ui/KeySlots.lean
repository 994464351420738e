import Nsr.Plugin.Registry

/-!
# The key table

`src/ui/key_slots.c`: which key a built-in shortcut is bound to.  At start-up, a shortcut whose
letter some plugin has reserved is given another letter of a row of the keyboard; the shortcuts
compare letters without their case.
-/

namespace Nsr

/-- A character of the source, as a byte. -/
def ord (c : Char) : UInt8 :=
  UInt8.ofNat c.toNat

/-- `RESERVED_KEYS`: the letters of the built-in shortcuts. -/
def builtinKeys : Bytes :=
  ascii "qngmtzspd"

/-- `slots`: the letters that are given out instead. -/
def fallbackSlots : Bytes :=
  ascii "QWERTYUIOP"

/-- `nsr_tolower_char`. -/
def tolowerChar (c : UInt8) : UInt8 :=
  if 0x41 ≤ c ∧ c ≤ 0x5a then c + 0x20 else c

/-- `nsr_toupper_char`. -/
def toupperChar (c : UInt8) : UInt8 :=
  if 0x61 ≤ c ∧ c ≤ 0x7a then c - 0x20 else c

/-- **`nsr_key_manager_t`**: the letter a letter is mapped to, `0` for itself. -/
structure KeyManager where
  remap : UInt8 → UInt8

namespace KeyManager

/-- What `key_mgr_init` does with a reserved key, at a position in the row of slots. -/
def initKey (s : KeyManager × ℕ) (rk : UInt8) : KeyManager × ℕ :=
  if !builtinKeys.any fun p => tolowerChar p == rk then s
  else if s.1.remap rk ≠ 0 then s
  else
    match fallbackSlots[s.2]? with
    | none => s
    | some assigned =>
      (⟨Function.update (Function.update s.1.remap rk assigned) (toupperChar rk) assigned⟩, s.2 + 1)

/-- What `key_mgr_init` does with an entry of the registry. -/
def initEntry (s : KeyManager × ℕ) (h : Host) : KeyManager × ℕ :=
  if !h.e.live then s else h.e.reservedKeys.foldl initKey s

/-- **`key_mgr_init`.** -/
def init (reg : Registry) : KeyManager :=
  (reg.foldl initEntry (⟨fun _ => 0⟩, 0)).1

/-- **`key_mgr_matches`.** -/
def isBoundTo (keys : KeyManager) (original : Char) (ch : Int32) : Bool :=
  if ch < 0 ∨ 255 < ch then false
  else
    let mapped := keys.remap (ord original)
    let target := if mapped ≠ 0 then mapped else ord original
    tolowerChar (UInt8.ofNat ch.toInt.toNat) == tolowerChar target

end KeyManager
end Nsr
