import Mathlib.Algebra.Group.Nat.Defs
import Mathlib.Data.List.GetD
import Mathlib.Data.Nat.Basic
import Libxseg.Hex

/-!
# Chunks of repeated text: mkchunk and chkchunk of xseg-tool.c

`mkchunk` fills a chunk with copies of a text, the offset in hexadecimal and the target,
and `chkchunk` looks whether a chunk has that text. Both go over the full copies in the
same way; the rest at the end is as long as the remainder by the length of the text for the
writer and by the length of the target for the checker.

An access outside an object has no result, and neither has a buffer of no positive size.
-/

namespace Libxseg

set_option autoImplicit false

def INT_MAX : Nat := 2 ^ 31 - 1

structure Object where
  size : Nat
  byte : Nat → UInt8

namespace Object

def memcpy (dst : Object) (pos : Nat) (src : Object) (n : Nat) : Option Object :=
  if pos + n ≤ dst.size ∧ n ≤ src.size then
    some { dst with
      byte := fun k => if pos ≤ k ∧ k < pos + n then src.byte (k - pos) else dst.byte k }
  else none

theorem memcpy_spec {dst src : Object} {pos n : Nat} (hdst : pos + n ≤ dst.size)
    (hsrc : n ≤ src.size) :
    ∃ dst', dst.memcpy pos src n = some dst' ∧ dst'.size = dst.size ∧
      ∀ k, dst'.byte k = if pos ≤ k ∧ k < pos + n then src.byte (k - pos) else dst.byte k :=
  ⟨_, if_pos ⟨hdst, hsrc⟩, rfl, fun _ => rfl⟩

/-- Whether the bytes are the same. -/
def memcmp (a : Object) (pos : Nat) (b : Object) (n : Nat) : Option Bool :=
  if pos + n ≤ a.size ∧ n ≤ b.size then some (decide (∀ k < n, a.byte (pos + k) = b.byte k))
  else none

end Object

/-- `char buf[bufsize]` after `snprintf` has written a text to it. What a result of more than
`INT_MAX` characters leaves there is not specified, and so is what is after the NUL. -/
def snprintf (uninit : Nat → UInt8) (bufsize : Nat) (text : List UInt8) : Object where
  size := bufsize
  byte k :=
    if INT_MAX < bufsize ∨ INT_MAX < text.length then uninit k
    else if k < text.length ∧ k < bufsize - 1 then text.getD k 0
    else if k = min text.length (bufsize - 1) then 0
    else uninit k

def chunkText (target : List UInt8) (offset : UInt64) : List UInt8 :=
  Hex.fixed 16 offset.toNat ++ target

def mkchunkLoop (buf : Object) (hpos : 0 < buf.size) (datalen i : Nat) (chunk : Object) :
    Option Object :=
  if i + buf.size ≤ datalen then
    (chunk.memcpy i buf buf.size).bind (mkchunkLoop buf hpos datalen (i + buf.size))
  else some chunk
termination_by datalen - i

def mkchunk (uninit : Nat → UInt8) (chunk : Object) (datalen : UInt32) (target : List UInt8)
    (targetlen : UInt32) (offset : UInt64) : Option Object :=
  let bufsize := (targetlen + 16).toNat
  let buf := snprintf uninit bufsize (chunkText target offset)
  if hpos : 0 < buf.size then
    let r := datalen.toNat % bufsize
    (mkchunkLoop buf hpos datalen.toNat 0 chunk).bind fun chunk =>
      chunk.memcpy (datalen.toNat - r) buf r
  else none

/-- Whether all full copies are right. -/
def chkchunkLoop (buf : Object) (hpos : 0 < buf.size) (datalen i : Nat) (chunk : Object) :
    Option Bool :=
  if i + buf.size ≤ datalen then
    (chunk.memcmp i buf buf.size).bind fun same =>
      if same then chkchunkLoop buf hpos datalen (i + buf.size) chunk else some false
  else some true
termination_by datalen - i

/-- Whether the result is 1. -/
def chkchunk (uninit : Nat → UInt8) (chunk : Object) (datalen : UInt32) (target : List UInt8)
    (targetlen : UInt32) (offset : UInt64) : Option Bool :=
  -- an `int`, so a length that does not fit is negative
  let bufsize := (targetlen + 16).toInt32.toInt
  let buf := snprintf uninit bufsize.toNat (chunkText target offset)
  if hpos : 0 < buf.size then
    if targetlen = 0 then none
    else
      let r := datalen.toNat % targetlen.toNat
      (chkchunkLoop buf hpos datalen.toNat 0 chunk).bind fun same =>
        if same then chunk.memcmp (datalen.toNat - r) buf r else some false
  else none

section Copies
variable {buf chunk chunk' : Object} {datalen i k n : Nat}

theorem copies_le (hn : 0 < n) (hdvd : n ∣ i) (h : datalen < i + n) : datalen / n * n ≤ i := by
  obtain ⟨m, rfl⟩ := hdvd
  rw [Nat.mul_comm n m] at h ⊢
  apply Nat.mul_le_mul_right
  apply Nat.lt_succ_iff.mp
  rw [Nat.div_lt_iff_lt_mul hn, Nat.succ_mul]
  exact h

theorem le_copies (hn : 0 < n) (hdvd : n ∣ i) (h : i + n ≤ datalen) :
    i + n ≤ datalen / n * n := by
  obtain ⟨m, rfl⟩ := hdvd
  rw [Nat.mul_comm n m, ← Nat.succ_mul] at h ⊢
  exact Nat.mul_le_mul_right n ((Nat.le_div_iff_mul_le hn).mpr h)

theorem sub_eq_mod (hdvd : n ∣ i) (hik : i ≤ k) (hk : k < i + n) : k - i = k % n := by
  obtain ⟨m, rfl⟩ := hdvd
  obtain ⟨j, rfl⟩ := Nat.exists_eq_add_of_le hik
  rw [Nat.add_sub_cancel_left, Nat.mul_add_mod, Nat.mod_eq_of_lt (by omega)]

theorem mkchunkLoop_spec (hpos : 0 < buf.size) (hdvd : buf.size ∣ i)
    (hsize : datalen ≤ chunk.size) :
    ∃ chunk', mkchunkLoop buf hpos datalen i chunk = some chunk' ∧ chunk'.size = chunk.size ∧
      ∀ k, chunk'.byte k = if i ≤ k ∧ k < datalen / buf.size * buf.size then
        buf.byte (k % buf.size) else chunk.byte k := by
  induction hleft : datalen - i using Nat.strong_induction_on generalizing i chunk with
  | h left ih =>
    rw [mkchunkLoop]
    by_cases hmore : i + buf.size ≤ datalen
    · have hend := le_copies hpos hdvd hmore
      obtain ⟨next, hcpy, hnext, hcopied⟩ :=
        Object.memcpy_spec (Nat.le_trans hmore hsize) (Nat.le_refl buf.size)
      have hfit : datalen ≤ next.size := Nat.le_trans hsize (Nat.le_of_eq hnext.symm)
      obtain ⟨chunk', hrun, hsame, hbyte⟩ := ih (datalen - (i + buf.size)) (by omega)
        (Nat.dvd_add_self_right.mpr hdvd) hfit rfl
      rw [if_pos hmore, hcpy, Option.bind_some]
      refine ⟨chunk', hrun, hsame.trans hnext, ?_⟩
      intro k
      rw [hbyte, hcopied]
      by_cases hcopy : i ≤ k ∧ k < i + buf.size
      · rw [if_neg (by omega), if_pos hcopy, if_pos (by omega), sub_eq_mod hdvd hcopy.1 hcopy.2]
      · by_cases hlater : i + buf.size ≤ k ∧ k < datalen / buf.size * buf.size
        · rw [if_pos hlater, if_pos (by omega)]
        · rw [if_neg hlater, if_neg hcopy, if_neg (by omega)]
    · have hend := copies_le hpos hdvd (Nat.lt_of_not_le hmore)
      rw [if_neg hmore]
      refine ⟨chunk, rfl, rfl, ?_⟩
      intro k
      rw [if_neg (by omega)]

theorem chkchunkLoop_eq (hpos : 0 < buf.size) (hdvd : buf.size ∣ i)
    (hsize : datalen ≤ chunk.size) :
    chkchunkLoop buf hpos datalen i chunk =
      some (decide (∀ k < datalen / buf.size * buf.size, i ≤ k →
        chunk.byte k = buf.byte (k % buf.size))) := by
  induction hleft : datalen - i using Nat.strong_induction_on generalizing i with
  | h left ih =>
    rw [chkchunkLoop]
    by_cases hmore : i + buf.size ≤ datalen
    · have hend := le_copies hpos hdvd hmore
      rw [if_pos hmore, Object.memcmp, if_pos ⟨by omega, le_rfl⟩, Option.bind_some,
        ih (datalen - (i + buf.size)) (by omega) (Nat.dvd_add_self_right.mpr hdvd) rfl]
      by_cases hsame : ∀ k < buf.size, chunk.byte (i + k) = buf.byte k
      · rw [if_pos (decide_eq_true hsame)]
        congr 2
        apply propext
        constructor
        · intro hlater k hk hik
          by_cases hcopy : k < i + buf.size
          · have hbyte := hsame (k - i) (by omega)
            rwa [Nat.add_sub_cancel' hik, sub_eq_mod hdvd hik hcopy] at hbyte
          · exact hlater k hk (by omega)
        · exact fun hall k hk hik => hall k hk (by omega)
      · rw [if_neg (by simpa using hsame)]
        apply congrArg some
        apply (decide_eq_false ?_).symm
        intro hall
        apply hsame
        intro k hk
        have hbyte := hall (i + k) (by omega) (by omega)
        rwa [← sub_eq_mod hdvd (by omega) (by omega), Nat.add_sub_cancel_left] at hbyte
    · have hend := copies_le hpos hdvd (Nat.lt_of_not_le hmore)
      rw [if_neg hmore]
      apply congrArg some
      apply (decide_eq_true ?_).symm
      intro k hk hik
      omega

theorem fill_spec (hpos : 0 < buf.size) (hsize : chunk.size = datalen) :
    ∃ chunk', ((mkchunkLoop buf hpos datalen 0 chunk).bind fun chunk =>
        chunk.memcpy (datalen - datalen % buf.size) buf (datalen % buf.size)) = some chunk' ∧
      chunk'.size = datalen ∧ ∀ k < datalen, chunk'.byte k = buf.byte (k % buf.size) := by
  have hmod := Nat.mod_lt datalen hpos
  have hfull : datalen - datalen % buf.size = datalen / buf.size * buf.size := by
    have hsplit := Nat.div_add_mod' datalen buf.size
    omega
  obtain ⟨next, hrun, hnext, hcopies⟩ :=
    mkchunkLoop_spec hpos (Nat.dvd_zero buf.size) (Nat.le_of_eq hsize.symm)
  have hle := Nat.mod_le datalen buf.size
  have hfit : datalen - datalen % buf.size + datalen % buf.size ≤ next.size := by omega
  obtain ⟨chunk', hcpy, hsame, hrest⟩ := Object.memcpy_spec hfit (Nat.le_of_lt hmod)
  refine ⟨chunk', by rw [hrun, Option.bind_some, hcpy], by omega, ?_⟩
  intro k hk
  rw [hrest, hcopies]
  by_cases hcopy : k < datalen - datalen % buf.size
  · rw [if_neg (by omega), if_pos (by omega)]
  · rw [if_pos (by omega), sub_eq_mod (n := buf.size) _ (by omega) (by omega)]
    rw [hfull]
    exact Nat.dvd_mul_left ..

theorem check_iff {r : Nat} (hpos : 0 < buf.size) (hsize : chunk.size = datalen)
    (hr : r ≤ datalen) :
    ((chkchunkLoop buf hpos datalen 0 chunk).bind fun same =>
        if same then chunk.memcmp (datalen - r) buf r else some false) = some true ↔
      (∀ k < datalen / buf.size * buf.size, chunk.byte k = buf.byte (k % buf.size)) ∧
        r ≤ buf.size ∧ ∀ k < r, chunk.byte (datalen - r + k) = buf.byte k := by
  rw [chkchunkLoop_eq hpos (Nat.dvd_zero _) (Nat.le_of_eq hsize.symm), Option.bind_some]
  by_cases hcopies : ∀ k < datalen / buf.size * buf.size, chunk.byte k = buf.byte (k % buf.size)
  · have hfirst : decide (∀ k < datalen / buf.size * buf.size, 0 ≤ k →
        chunk.byte k = buf.byte (k % buf.size)) = true :=
      decide_eq_true fun k hk _ => hcopies k hk
    rw [if_pos hfirst, Object.memcmp, Option.ite_none_right_eq_some]
    constructor
    · rintro ⟨⟨-, hlen⟩, hrest⟩
      exact ⟨hcopies, hlen, of_decide_eq_true (Option.some.inj hrest)⟩
    · rintro ⟨-, hlen, hrest⟩
      exact ⟨⟨by omega, hlen⟩, congrArg some (decide_eq_true hrest)⟩
  · have hfirst : ¬ decide (∀ k < datalen / buf.size * buf.size, 0 ≤ k →
        chunk.byte k = buf.byte (k % buf.size)) = true :=
      fun hall => hcopies fun k hk => of_decide_eq_true hall k hk (Nat.zero_le k)
    rw [if_neg hfirst]
    exact iff_of_false (by simp) fun h => hcopies h.1

theorem check_ne_none {r : Nat} (hpos : 0 < buf.size) (hsize : chunk.size = datalen)
    (hr : r ≤ datalen) (hbuf : r ≤ buf.size) :
    ((chkchunkLoop buf hpos datalen 0 chunk).bind fun same =>
        if same then chunk.memcmp (datalen - r) buf r else some false) ≠ none := by
  rw [chkchunkLoop_eq hpos (Nat.dvd_zero _) (Nat.le_of_eq hsize.symm), Option.bind_some]
  split
  · rw [Object.memcmp, if_pos ⟨by omega, hbuf⟩]
    exact Option.some_ne_none _
  · exact Option.some_ne_none _

end Copies

section Sizes
variable {uninit uninit' : Nat → UInt8} {chunk : Object} {datalen targetlen : UInt32}
  {target : List UInt8} {offset : UInt64}

theorem toInt32_toInt_toNat (word : UInt32) :
    word.toInt32.toInt.toNat = if word.toNat < 2 ^ 31 then word.toNat else 0 := by
  have hint : word.toInt32.toInt = word.toBitVec.toInt := rfl
  have hnat : word.toBitVec.toNat = word.toNat := rfl
  have hlt := word.toNat_lt
  rw [hint, BitVec.toInt_eq_toNat_cond, hnat]
  split <;> split <;> omega

theorem bufsize_toNat (targetlen : UInt32) :
    (targetlen + 16).toNat = (targetlen.toNat + 16) % 2 ^ 32 := UInt32.toNat_add ..

/-- A length that an `int` has room for is the same in both functions. -/
theorem sizes_of_fits (hfit : targetlen.toNat + 16 < 2 ^ 31) :
    (targetlen + 16).toNat = targetlen.toNat + 16 ∧
      (targetlen + 16).toInt32.toInt.toNat = targetlen.toNat + 16 := by
  have hword : (targetlen + 16).toNat = targetlen.toNat + 16 := by
    rw [bufsize_toNat, Nat.mod_eq_of_lt (by omega)]
  refine ⟨hword, ?_⟩
  rw [toInt32_toInt_toNat, hword, if_pos hfit]

theorem ne_zero_of_pos (hlen : 1 ≤ targetlen.toNat) : targetlen ≠ 0 := by
  rintro rfl
  exact absurd hlen (by decide)

theorem mkchunk_spec (hpos : 0 < (targetlen + 16).toNat) (hchunk : chunk.size = datalen.toNat) :
    ∃ chunk', mkchunk uninit chunk datalen target targetlen offset = some chunk' ∧
      chunk'.size = datalen.toNat ∧ ∀ k < datalen.toNat, chunk'.byte k =
        (snprintf uninit (targetlen + 16).toNat (chunkText target offset)).byte
          (k % (targetlen + 16).toNat) := by
  have hbuf : 0 < (snprintf uninit (targetlen + 16).toNat (chunkText target offset)).size := hpos
  rw [mkchunk, dif_pos hbuf]
  exact fill_spec hbuf hchunk

theorem chkchunk_iff {bufsize : Nat} (hsize : (targetlen + 16).toInt32.toInt.toNat = bufsize)
    (hpos : 0 < bufsize) (hlen : targetlen ≠ 0) (hchunk : chunk.size = datalen.toNat) :
    chkchunk uninit chunk datalen target targetlen offset = some true ↔
      (∀ k < datalen.toNat / bufsize * bufsize, chunk.byte k =
        (snprintf uninit bufsize (chunkText target offset)).byte (k % bufsize)) ∧
      datalen.toNat % targetlen.toNat ≤ bufsize ∧
      ∀ k < datalen.toNat % targetlen.toNat,
        chunk.byte (datalen.toNat - datalen.toNat % targetlen.toNat + k) =
          (snprintf uninit bufsize (chunkText target offset)).byte k := by
  subst hsize
  have hbuf : 0 < (snprintf uninit (targetlen + 16).toInt32.toInt.toNat
    (chunkText target offset)).size := hpos
  rw [chkchunk, dif_pos hbuf, if_neg hlen]
  exact check_iff hbuf hchunk (Nat.mod_le ..)

def copyText (target : List UInt8) (offset : UInt64) : List UInt8 :=
  (chunkText target offset).dropLast ++ [0]

theorem length_chunkText (htarget : target.length = targetlen.toNat) :
    (chunkText target offset).length = targetlen.toNat + 16 := by
  rw [chunkText, List.length_append, Hex.length_fixed, htarget, Nat.add_comm]

theorem length_copyText (htarget : target.length = targetlen.toNat) :
    (copyText target offset).length = targetlen.toNat + 16 := by
  rw [copyText, List.length_append, List.length_dropLast, length_chunkText htarget]
  rfl

theorem snprintf_byte (htarget : target.length = targetlen.toNat)
    (hfit : targetlen.toNat + 16 < 2 ^ 31) {k : Nat} (hk : k < targetlen.toNat + 16) :
    (snprintf uninit (targetlen.toNat + 16) (chunkText target offset)).byte k =
      (copyText target offset).getD k 0 := by
  have hlen : (chunkText target offset).length = targetlen.toNat + 16 := length_chunkText htarget
  have hmax : ¬ (INT_MAX < targetlen.toNat + 16 ∨
      INT_MAX < (chunkText target offset).length) := by
    rw [hlen]
    unfold INT_MAX
    omega
  rw [snprintf, copyText]
  dsimp only
  rw [if_neg hmax, hlen]
  by_cases hlast : k < targetlen.toNat + 16 - 1
  · rw [if_pos ⟨hk, hlast⟩, List.getD_append _ _ _ _ (by rw [List.length_dropLast]; omega)]
    simp only [List.getD_eq_getElem?_getD, List.getElem?_dropLast, hlen, if_pos hlast]
  · have hdrop : (chunkText target offset).dropLast.length = k := by
      rw [List.length_dropLast]
      omega
    rw [if_neg (fun h => hlast h.2), if_pos (by omega), List.getD_append_right _ _ _ _ (Nat.le_of_eq hdrop),
      hdrop, Nat.sub_self]
    rfl

/-- What is written and looked for is the same from a position on as from the start. -/
def RestartsAt (text : List UInt8) (pos r : Nat) : Prop :=
  ∀ k < r, text.getD ((pos + k) % text.length) 0 = text.getD k 0

instance (text : List UInt8) (pos r : Nat) : Decidable (RestartsAt text pos r) :=
  inferInstanceAs (Decidable (∀ k < r, _))

def ChecksOut (datalen : UInt32) (target : List UInt8) (targetlen : UInt32) (offset : UInt64) :
    Prop :=
  let r := datalen.toNat % targetlen.toNat
  (targetlen.toNat + 16 < 2 ^ 31 ∧ RestartsAt (copyText target offset) (datalen.toNat - r) r) ∨
    (2 ^ 32 < targetlen.toNat + 16 ∧ datalen = 0)

/-- With a length that an `int` has room for both write the same text. -/
theorem agree_iff_of_fits (htarget : target.length = targetlen.toNat)
    (hlen : 1 ≤ targetlen.toNat) (hchunk : chunk.size = datalen.toNat)
    (hfit : targetlen.toNat + 16 < 2 ^ 31) :
    (∃ chunk', mkchunk uninit chunk datalen target targetlen offset = some chunk' ∧
      chkchunk uninit' chunk' datalen target targetlen offset = some true) ↔
    RestartsAt (copyText target offset)
      (datalen.toNat - datalen.toNat % targetlen.toNat)
      (datalen.toNat % targetlen.toNat) := by
  obtain ⟨hword, hint⟩ := sizes_of_fits hfit
  have hne := ne_zero_of_pos hlen
  have hrest := Nat.mod_lt datalen.toNat hlen
  have hle := Nat.mod_le datalen.toNat targetlen.toNat
  obtain ⟨chunk', hmk, hsize, hcopied⟩ : ∃ chunk',
      mkchunk uninit chunk datalen target targetlen offset = some chunk' ∧
      chunk'.size = datalen.toNat ∧ ∀ k < datalen.toNat, chunk'.byte k =
        (copyText target offset).getD (k % (targetlen.toNat + 16)) 0 := by
    have hpos : 0 < (targetlen + 16).toNat := by omega
    obtain ⟨chunk', hmk, hsize, hbyte⟩ := mkchunk_spec hpos hchunk
    refine ⟨chunk', hmk, hsize, ?_⟩
    intro k hk
    rw [hbyte k hk, hword, snprintf_byte htarget hfit (Nat.mod_lt _ (by omega))]
  rw [RestartsAt, length_copyText htarget]
  constructor
  · rintro ⟨chunk'', hmk', hchk⟩
    obtain rfl := Option.some.inj (hmk.symm.trans hmk')
    obtain ⟨-, -, hsame⟩ := (chkchunk_iff hint (by omega) hne hsize).mp hchk
    intro k hk
    have hlook := hsame k hk
    rwa [hcopied _ (by omega), snprintf_byte htarget hfit (by omega)] at hlook
  · intro hstart
    refine ⟨chunk', hmk, (chkchunk_iff hint (by omega) hne hsize).mpr ⟨?_, by omega, ?_⟩⟩
    · intro k hk
      have hlt := Nat.lt_of_lt_of_le hk (Nat.div_mul_le_self ..)
      rw [hcopied k hlt, snprintf_byte htarget hfit (Nat.mod_lt _ (by omega))]
    · intro k hk
      rw [hcopied _ (by omega), snprintf_byte htarget hfit (by omega)]
      exact hstart k hk

theorem chkchunk_ne_none (hlen : 1 ≤ targetlen.toNat) (hfit : targetlen.toNat + 16 < 2 ^ 31)
    (hchunk : chunk.size = datalen.toNat) :
    chkchunk uninit chunk datalen target targetlen offset ≠ none := by
  have hsize : (snprintf uninit (targetlen + 16).toInt32.toInt.toNat
    (chunkText target offset)).size = targetlen.toNat + 16 := (sizes_of_fits hfit).2
  have hbuf := Nat.lt_of_lt_of_eq (Nat.succ_pos _) hsize.symm
  have hrest := Nat.mod_lt datalen.toNat hlen
  rw [chkchunk, dif_pos hbuf, if_neg (ne_zero_of_pos hlen)]
  apply check_ne_none hbuf hchunk (Nat.mod_le ..)
  omega

/-- The text of a target that is too long for an `int` is not written. -/
theorem snprintf_byte_of_large (htarget : target.length = targetlen.toNat)
    (hlarge : 2 ^ 31 ≤ targetlen.toNat + 16) (bufsize k : Nat) :
    (snprintf uninit bufsize (chunkText target offset)).byte k = uninit k := by
  apply if_pos
  right
  rw [length_chunkText htarget, INT_MAX]
  omega

theorem agree_iff_of_large (htarget : target.length = targetlen.toNat)
    (hchunk : chunk.size = datalen.toNat) (hlarge : 2 ^ 31 ≤ targetlen.toNat + 16) :
    (∀ uninit uninit', ∃ chunk',
      mkchunk uninit chunk datalen target targetlen offset = some chunk' ∧
      chkchunk uninit' chunk' datalen target targetlen offset = some true) ↔
    2 ^ 32 < targetlen.toNat + 16 ∧ datalen = 0 := by
  have hlt := targetlen.toNat_lt
  have hword := bufsize_toNat targetlen
  have hint := toInt32_toInt_toNat (targetlen + 16)
  have hne : targetlen ≠ 0 := ne_zero_of_pos (by omega)
  constructor
  · intro hall
    obtain ⟨chunk', hmk, hchk⟩ := hall (fun _ => 0) (fun _ => 1)
    by_cases hwrap : 2 ^ 32 < targetlen.toNat + 16
    · refine ⟨hwrap, ?_⟩
      by_contra hdata
      have hpos : 0 < (targetlen + 16).toNat := by omega
      have hdatalen : 0 < datalen.toNat :=
        Nat.pos_of_ne_zero fun hzero => hdata (UInt32.toNat_inj.mp hzero)
      obtain ⟨chunk'', hmk', hsize, hbyte⟩ := mkchunk_spec hpos hchunk
      obtain rfl := Option.some.inj (hmk'.symm.trans hmk)
      rw [if_pos (by omega)] at hint
      obtain ⟨hcopies, -, hrest⟩ := (chkchunk_iff hint hpos hne hsize).mp hchk
      have hfirst := hbyte 0 hdatalen
      rw [snprintf_byte_of_large htarget hlarge] at hfirst
      by_cases hfull : (targetlen + 16).toNat ≤ datalen.toNat
      · have hcopy := hcopies 0 (Nat.mul_pos (Nat.div_pos hfull hpos) hpos)
        rw [snprintf_byte_of_large htarget hlarge, hfirst] at hcopy
        exact absurd hcopy (by decide)
      · have hmod : datalen.toNat % targetlen.toNat = datalen.toNat :=
          Nat.mod_eq_of_lt (by omega)
        rw [hmod, Nat.sub_self] at hrest
        have hlook := hrest 0 hdatalen
        rw [snprintf_byte_of_large htarget hlarge, Nat.zero_add, hfirst] at hlook
        exact absurd hlook (by decide)
    · exfalso
      by_cases hzero : (targetlen + 16).toNat = 0
      · have hbuf : ¬ 0 < (snprintf (fun _ => 0) (targetlen + 16).toNat
            (chunkText target offset)).size := Nat.not_lt_of_le (Nat.le_of_eq hzero)
        rw [mkchunk, dif_neg hbuf] at hmk
        exact Option.some_ne_none _ hmk.symm
      · rw [if_neg (by omega)] at hint
        have hbuf : ¬ 0 < (snprintf (fun _ => 1) (targetlen + 16).toInt32.toInt.toNat
            (chunkText target offset)).size := Nat.not_lt_of_le (Nat.le_of_eq hint)
        rw [chkchunk, dif_neg hbuf] at hchk
        exact Option.some_ne_none _ hchk.symm
  · rintro ⟨hwrap, rfl⟩ uninit uninit'
    have hpos : 0 < (targetlen + 16).toNat := by omega
    obtain ⟨chunk', hmk, hsize, -⟩ := mkchunk_spec hpos hchunk
    rw [if_pos (by omega)] at hint
    refine ⟨chunk', hmk, (chkchunk_iff hint hpos hne hsize).mpr ⟨?_, ?_, ?_⟩⟩
    · intro k hk
      rw [UInt32.toNat_zero, Nat.zero_div, Nat.zero_mul] at hk
      exact absurd hk (Nat.not_lt_zero k)
    · rw [UInt32.toNat_zero, Nat.zero_mod]
      exact Nat.zero_le _
    · intro k hk
      rw [UInt32.toNat_zero, Nat.zero_mod] at hk
      exact absurd hk (Nat.not_lt_zero k)

/-- The checker accepts what the writer wrote exactly if the length of the target is such that it
looks in the right place, and neither leaves the chunk. -/
theorem chkchunk_mkchunk_iff (htarget : target.length = targetlen.toNat)
    (hlen : 1 ≤ targetlen.toNat) (hchunk : chunk.size = datalen.toNat) :
    ((∀ uninit uninit', ∃ chunk',
        mkchunk uninit chunk datalen target targetlen offset = some chunk' ∧
        chkchunk uninit' chunk' datalen target targetlen offset = some true) ↔
      ChecksOut datalen target targetlen offset) ∧
    (targetlen.toNat + 16 < 2 ^ 31 → ∀ uninit,
      mkchunk uninit chunk datalen target targetlen offset ≠ none ∧
      chkchunk uninit chunk datalen target targetlen offset ≠ none) := by
  constructor
  · by_cases hfit : targetlen.toNat + 16 < 2 ^ 31
    · rw [ChecksOut]
      constructor
      · intro hall
        have hstart := hall (fun _ => 0) (fun _ => 0)
        exact .inl ⟨hfit, (agree_iff_of_fits htarget hlen hchunk hfit).mp hstart⟩
      · rintro (⟨-, hstart⟩ | ⟨hwrap, -⟩) uninit uninit'
        · exact (agree_iff_of_fits htarget hlen hchunk hfit).mpr hstart
        · omega
    · rw [agree_iff_of_large htarget hchunk (Nat.le_of_not_lt hfit), ChecksOut]
      constructor
      · exact .inr
      · rintro (⟨hfits, -⟩ | hwrap)
        · exact absurd hfits hfit
        · exact hwrap
  · intro hfit uninit
    refine ⟨?_, chkchunk_ne_none hlen hfit hchunk⟩
    have hpos := Nat.lt_of_lt_of_eq (Nat.succ_pos _) (sizes_of_fits hfit).1.symm
    obtain ⟨chunk', hmk, -⟩ := mkchunk_spec hpos hchunk
    rw [hmk]
    exact Option.some_ne_none _

end Sizes

def target16 : List UInt8 := List.replicate 16 97

def blankChunk (size : Nat) : Object := ⟨size, fun _ => 0⟩

theorem chkchunk_mkchunk_iff_target16 :
    ((∀ uninit uninit', ∃ chunk', mkchunk uninit (blankChunk 40) 40 target16 16 0 = some chunk' ∧
        chkchunk uninit' chunk' 40 target16 16 0 = some true) ↔
      ChecksOut 40 target16 16 0) ∧
    ((16 : UInt32).toNat + 16 < 2 ^ 31 → ∀ uninit,
      mkchunk uninit (blankChunk 40) 40 target16 16 0 ≠ none ∧
      chkchunk uninit (blankChunk 40) 40 target16 16 0 ≠ none) :=
  chkchunk_mkchunk_iff (by decide) (by decide) rfl

/-- Of a chunk of 24 bytes the last 8 are a part of the target, and are compared with the
offset. -/
theorem not_chkchunk_mkchunk : ¬ ∀ (chunk : Object) (datalen : UInt32) (target : List UInt8)
    (targetlen : UInt32) (offset : UInt64), target.length = targetlen.toNat →
    1 ≤ targetlen.toNat → chunk.size = datalen.toNat → ∀ uninit uninit', ∃ chunk',
      mkchunk uninit chunk datalen target targetlen offset = some chunk' ∧
      chkchunk uninit' chunk' datalen target targetlen offset = some true := by
  intro hall
  have hsame := hall (blankChunk 24) 24 target16 16 0 (by decide) (by decide) rfl
    (fun _ => 0) (fun _ => 0)
  rw [agree_iff_of_fits (by decide) (by decide) rfl (by decide)] at hsame
  exact absurd hsame (by decide)

end Libxseg
