import Mathlib

/-!
# Framed bytes

Bytes in hexadecimal, and texts framed by their length, so that a sequence of
them is read back from their concatenation.

`frame_append_inj` : a frame ends where its length says, whatever follows it.
Sequences of frames are therefore told apart (`flatMap_frame_inj`), also when a
running byte stands before each (`numbered_inj`).
-/

namespace Flotilla.Lib

/-! ### Codes -/

section Codes

variable {α β γ : Type*} {f : α → List β} {g : α → γ} {P : α → Prop} {l l' : List α}
  (hcode : ∀ {a b x y}, P a → P b → f a ++ x = f b ++ y → g a = g b ∧ x = y)

include hcode

/-- A sequence of codes that end by themselves, before what is no code, tells what each of them
tells. -/
theorem flatMap_append_inj {u v : List β} (hu : ∀ a x, f a ++ x ≠ u) (hv : ∀ a x, f a ++ x ≠ v)
    (hl : ∀ a ∈ l, P a) (hl' : ∀ a ∈ l', P a) (h : l.flatMap f ++ u = l'.flatMap f ++ v) :
    l.map g = l'.map g ∧ u = v := by
  induction l generalizing l' with
  | nil =>
    cases l' with
    | nil => exact ⟨rfl, h⟩
    | cons b l' =>
      rw [List.flatMap_cons, List.append_assoc] at h
      exact absurd h.symm (hu b _)
  | cons a l ih =>
    rw [List.flatMap_cons, List.append_assoc] at h
    cases l' with
    | nil => exact absurd h (hv a _)
    | cons b l' =>
      rw [List.forall_mem_cons] at hl hl'
      rw [List.flatMap_cons, List.append_assoc] at h
      obtain ⟨hpart, hrest⟩ := hcode hl.1 hl'.1 h
      obtain ⟨hparts, hend⟩ := ih hl.2 hl'.2 hrest
      exact ⟨by rw [List.map_cons, List.map_cons, hpart, hparts], hend⟩

theorem map_eq_of_flatMap (hne : ∀ a, f a ≠ []) (hl : ∀ a ∈ l, P a) (hl' : ∀ a ∈ l', P a)
    (h : l.flatMap f = l'.flatMap f) : l.map g = l'.map g := by
  have hend : ∀ a x, f a ++ x ≠ [] := fun a x => List.append_ne_nil_of_left_ne_nil (hne a) x
  exact (flatMap_append_inj hcode hend hend hl hl' (by rw [h])).1

end Codes

/-! ### Hexadecimal -/

def hexDigit (n : Nat) : Char :=
  if n < 10 then Char.ofNat (48 + n) else Char.ofNat (87 + n)

def hexValue (c : Char) : Nat :=
  if c.toNat < 58 then c.toNat - 48 else c.toNat - 87

theorem hexValue_hexDigit : ∀ n < 16, hexValue (hexDigit n) = n := by
  decide

def hexByte (b : UInt8) : List Char := [hexDigit (b.toNat / 16), hexDigit (b.toNat % 16)]

def hex (bytes : List UInt8) : String := String.ofList (bytes.flatMap hexByte)

theorem hexByte_append_inj {a b : UInt8} {x y : List Char}
    (h : hexByte a ++ x = hexByte b ++ y) : a = b ∧ x = y := by
  simp only [hexByte, List.cons_append, List.nil_append, List.cons.injEq] at h
  obtain ⟨hhigh, hlow, hrest⟩ := h
  have ha := UInt8.toNat_lt a
  have hb := UInt8.toNat_lt b
  have hhigh' := congrArg hexValue hhigh
  have hlow' := congrArg hexValue hlow
  rw [hexValue_hexDigit _ (by omega), hexValue_hexDigit _ (by omega)] at hhigh' hlow'
  exact ⟨UInt8.toNat_inj.mp (by omega), hrest⟩

theorem hex_injective : Function.Injective hex := by
  intro a b h
  have hbytes := map_eq_of_flatMap (g := id) (P := fun _ => True) (fun _ _ => hexByte_append_inj)
    (by simp [hexByte]) (by simp) (by simp) (String.ofList_injective h)
  simpa using hbytes

/-! ### Texts -/

def utf8 (s : String) : List UInt8 := s.toByteArray.data.toList

theorem utf8_injective : Function.Injective utf8 := by
  intro s t h
  apply String.toByteArray_inj.mp
  apply ByteArray.ext
  exact Array.toList_inj.mp h

theorem length_utf8_hex_le (bytes : List UInt8) : (utf8 (hex bytes)).length ≤ 8 * bytes.length := by
  have hencode : ∀ cs : List Char, (cs.flatMap String.utf8EncodeChar).length ≤ 4 * cs.length := by
    intro cs
    induction cs with
    | nil => simp
    | cons c cs ih =>
      have hc := Char.utf8Size_le_four c
      simp only [List.flatMap_cons, List.length_append, List.length_cons,
        String.length_utf8EncodeChar]
      omega
  have hlength : (bytes.flatMap hexByte).length = 2 * bytes.length := by
    simp [List.length_flatMap, hexByte, mul_comm]
  have h := hencode (bytes.flatMap hexByte)
  simp only [utf8, hex, String.toByteArray_ofList, List.utf8Encode]
  rw [List.toList_data_toByteArray]
  omega

/-! ### Lengths -/

/-- The last `w` bytes of a number, the highest first. -/
def toBeBytes : (w : Nat) → Nat → List UInt8
  | 0, _ => []
  | w + 1, n => toBeBytes w (n / 256) ++ [UInt8.ofNat n]

@[simp] theorem length_toBeBytes (w n : Nat) : (toBeBytes w n).length = w := by
  induction w generalizing n with
  | zero => rfl
  | succ w ih => simp [toBeBytes, ih]

theorem toBeBytes_inj {w m n : Nat} (hm : m < 256 ^ w) (hn : n < 256 ^ w)
    (h : toBeBytes w m = toBeBytes w n) : m = n := by
  induction w generalizing m n with
  | zero => omega
  | succ w ih =>
    obtain ⟨hhigh, hlast⟩ := List.append_inj h (by simp)
    have hquotient := ih (Nat.div_lt_of_lt_mul (by omega)) (Nat.div_lt_of_lt_mul (by omega)) hhigh
    have hremainder := congrArg UInt8.toNat (List.cons.inj hlast).1
    simp only [UInt8.toNat_ofNat'] at hremainder
    omega

/-! ### Frames -/

def frame (bytes : List UInt8) : List UInt8 := toBeBytes 8 bytes.length ++ bytes

/-- The length fits its eight bytes. -/
def Framable (bytes : List UInt8) : Prop := bytes.length < 256 ^ 8

theorem frame_ne_nil (bytes : List UInt8) : frame bytes ≠ [] := by
  intro h
  have hlength := congrArg List.length h
  simp [frame] at hlength

theorem frame_append_inj {a b x y : List UInt8} (ha : Framable a) (hb : Framable b)
    (h : frame a ++ x = frame b ++ y) : a = b ∧ x = y := by
  simp only [frame, List.append_assoc] at h
  obtain ⟨hlength, hrest⟩ := List.append_inj h (by simp)
  exact List.append_inj hrest (toBeBytes_inj ha hb hlength)

theorem flatMap_frame_inj {α : Type*} {f : α → List UInt8} (hf : Function.Injective f)
    {l l' : List α} (hl : ∀ a ∈ l, Framable (f a)) (hl' : ∀ a ∈ l', Framable (f a))
    (h : (l.flatMap fun a => frame (f a)) = l'.flatMap fun a => frame (f a)) : l = l' :=
  List.map_injective_iff.mpr hf
    (map_eq_of_flatMap frame_append_inj (fun _ => frame_ne_nil _) hl hl' h)

/-- Frames behind their number. -/
def numbered (l : List (List UInt8)) (start : Nat) : List UInt8 :=
  (l.zipIdx start).flatMap fun e => UInt8.ofNat e.2 :: frame e.1

theorem numbered_inj {l l' : List (List UInt8)} {start : Nat} (hl : ∀ a ∈ l, Framable a)
    (hl' : ∀ a ∈ l', Framable a) (h : numbered l start = numbered l' start) : l = l' := by
  have hparts := map_eq_of_flatMap (g := Prod.fst) (P := fun e => Framable e.1)
    (fun ha hb h => frame_append_inj ha hb (List.cons.inj h).2) (fun _ => List.cons_ne_nil _ _)
    (fun e he => hl _ (List.fst_mem_of_mem_zipIdx he))
    (fun e he => hl' _ (List.fst_mem_of_mem_zipIdx he)) h
  simpa only [List.zipIdx_map_fst] using hparts

end Flotilla.Lib
