import Craplib.Data.Fifo

/-!
# `DataInputStream`, `DataOutputStream`, and a socket as both

A stream is known by what its virtual function does to the `Data` it is handed and by
the count it returns.  Here a `Data` is the bytes of its window; `returns_mkSlice_bytes`
is the link to the handles of `Data.Handles`: cutting a handle cuts its bytes.

`read` puts the next bytes in `data` and returns their number (`Reads`), `write` takes
an accepted prefix from `data` and returns its length (`Writes`).  A socket is both,
whatever `recv` and `send` return.
-/

namespace Craplib

open Memory Effects

/-- The bytes of the window of a `Data`. -/
abbrev Bytes := List Byte

namespace Bytes

/-- `Data(data, pos, si)`. -/
def slice (data : Bytes) (pos si : ℤ) : Except Thrown Bytes :=
  match checkPosition pos data.length with
  | .error e => .error e
  | .ok pos => .ok ((data.drop pos.toNat).take (min si (data.length - pos)).toNat)

/-- What is left behind a prefix. -/
theorem slice_rest {data : Bytes} {pos : ℤ} (hlo : 0 ≤ pos) (hhi : pos ≤ data.length) :
    data.slice pos (data.length - pos) = .ok (data.drop pos.toNat) := by
  have hin : ¬ (pos < 0 ∨ pos > data.length) := by omega
  simp only [slice, checkPosition, if_neg hin, Int.min_self, Except.ok.injEq]
  rw [List.take_of_length_le]
  rw [List.length_drop]
  omega

/-- The beginning of a window always is one. -/
theorem slice_zero (data : Bytes) (si : ℤ) :
    data.slice 0 si = .ok (data.take (min si data.length).toNat) := by
  have hin : ¬ ((0 : ℤ) < 0 ∨ (0 : ℤ) > data.length) := by omega
  simp only [slice, checkPosition, if_neg hin, Int.sub_zero]
  rfl

/-- A prefix. -/
theorem slice_front {data : Bytes} {si : ℤ} (hhi : si ≤ data.length) :
    data.slice 0 si = .ok (data.take si.toNat) := by
  rw [slice_zero, Int.min_eq_left hhi]

end Bytes

namespace Data

variable {m : Mem} {d : Data}

/-- The bytes of a cut window are the cut bytes. -/
theorem content_cut (hd : d.Placed m) {pos : ℤ} (si : ℤ) (hlo : 0 ≤ pos) (hhi : pos ≤ d.size) :
    content m (d.slice pos si) =
      ((content m d).drop pos.toNat).take (min si (d.size - pos)).toNat := by
  obtain ⟨n, b, hn, hb, hpos, hle, hend⟩ := hd
  rw [content_eq (d := d.slice pos si) hn hb, content_eq hn hb]
  simp only [Data.slice]
  rw [List.drop_take, List.drop_drop, List.take_take, Int.toNat_add hpos hlo]
  congr 1
  omega

/-- **Cutting a handle cuts its bytes**, and throws where cutting the bytes does. -/
theorem returns_mkSlice_bytes (hd : d.Placed m) (hsize : 0 ≤ d.size) (pos si : ℤ) :
    Returns m (mkSlice d pos si) fun r =>
      r.map (content m) = Bytes.slice (content m d) pos si := by
  have hlen : ((content m d).length : ℤ) = d.size := by
    rw [length_content hd]
    omega
  unfold mkSlice
  refine Returns.bind_ok (Returns.onHeap fun _ _ _ h => SharedPtr.mkCopy_fst h) ?_
  unfold Bytes.slice checkPosition
  rw [hlen]
  by_cases hout : pos < 0 ∨ pos > d.size
  · rw [if_pos hout]
    exact Returns.bind_ok (returns_destroy d) (Returns.throw rfl)
  · rw [if_neg hout]
    refine Returns.pure (congrArg Except.ok ?_)
    exact content_cut hd si (by omega) (by omega)

end Data

/-! ## The contract -/

/-- What `DataInputStream::read` does: `count` bytes are in `data` afterwards. -/
def DataInputStream.Reads (data : Bytes) (count : ℤ) : Prop := count = data.length

instance (data : Bytes) (count : ℤ) : Decidable (DataInputStream.Reads data count) :=
  inferInstanceAs (Decidable (count = data.length))

/-- What `DataOutputStream::write` does: a prefix of `data`, of length `count`, is gone
afterwards. -/
def DataOutputStream.Writes (data data' : Bytes) (count : ℤ) : Prop :=
  ∃ accepted, data = accepted ++ data' ∧ count = accepted.length

namespace DataOutputStream

variable {data data' : Bytes} {count : ℤ}

/-- What is left is what lies behind the first `count` bytes. -/
theorem writes_iff : Writes data data' count ↔
    0 ≤ count ∧ count ≤ data.length ∧ data' = data.drop count.toNat := by
  constructor
  · rintro ⟨accepted, rfl, rfl⟩
    refine ⟨by omega, ?_, by simp⟩
    rw [List.length_append]
    omega
  · rintro ⟨hlo, hhi, rfl⟩
    refine ⟨data.take count.toNat, (List.take_append_drop _ _).symm, ?_⟩
    rw [List.length_take]
    omega

instance : Decidable (Writes data data' count) := decidable_of_iff _ writes_iff.symm

/-- The accepted bytes are the first `count` ones. -/
theorem Writes.take_append (h : Writes data data' count) :
    data.take count.toNat ++ data' = data := by
  rw [(writes_iff.mp h).2.2, List.take_append_drop]

end DataOutputStream

namespace DataInputStream

/-- A count of zero is how the end of what is available shows. -/
theorem Reads.eq_nil_iff {data : Bytes} {count : ℤ} (h : Reads data count) :
    count = 0 ↔ data = [] := by
  rw [h]
  simp

end DataInputStream

/-! ## A socket -/

namespace RWSocket

/-- `RWSocket::read`, when `recv` returned `r` and left `d` in its buffer. -/
def read (r : ℤ) (d : Bytes) : Except Thrown (ℤ × Bytes) :=
  if r < 0 then .ok (0, [])
  else
    match d.slice 0 r with
    | .error e => .error e
    | .ok data => .ok (r, data)

/-- `RWSocket::write`, when `send` returned `written`. -/
def write (written : ℤ) (data : Bytes) : Except Thrown (ℤ × Bytes) :=
  if written < 0 then .ok (0, data)
  else
    match data.slice written (data.length - written) with
    | .error e => .error e
    | .ok data' => .ok (written, data')

/-- A socket reads what `recv` received, or nothing when `recv` failed. -/
theorem read_eq {r : ℤ} {d : Bytes} (h : r ≤ d.length) :
    read r d = .ok (max r 0, d.take r.toNat) := by
  unfold read
  by_cases hneg : r < 0
  · rw [if_pos hneg, Int.max_eq_right (by omega), Int.toNat_of_nonpos (by omega), List.take_zero]
  · rw [if_neg hneg, Bytes.slice_front h, Int.max_eq_left (by omega)]

/-- A socket accepts what `send` sent, or nothing when `send` failed. -/
theorem write_eq {written : ℤ} {data : Bytes} (h : written ≤ data.length) :
    write written data = .ok (max written 0, data.drop written.toNat) := by
  unfold write
  by_cases hneg : written < 0
  · rw [if_pos hneg, Int.max_eq_right (by omega), Int.toNat_of_nonpos (by omega), List.drop_zero]
  · rw [if_neg hneg, Bytes.slice_rest (by omega) h, Int.max_eq_left (by omega)]

theorem reads {r : ℤ} {d : Bytes} (h : r ≤ d.length) :
    DataInputStream.Reads (d.take r.toNat) (max r 0) := by
  unfold DataInputStream.Reads
  rw [List.length_take]
  omega

theorem writes {written : ℤ} {data : Bytes} (h : written ≤ data.length) :
    DataOutputStream.Writes data (data.drop written.toNat) (max written 0) := by
  have hcount : (max written 0).toNat = written.toNat := by omega
  exact DataOutputStream.writes_iff.mpr ⟨by omega, by omega, by rw [hcount]⟩

end RWSocket

end Craplib
