import GooseOs.Lib.Bytes

/-!
Records of little-endian fields, one behind the other. Each field is found where the widths before it end.
-/

namespace GooseOs

/-- The bytes of a record, from the widths and values of its fields. -/
def recordBytes (fields : List (Nat × Nat)) : List Byte := fields.flatMap fun (width, val) => leBytes width val

def recordSize : List (Nat × Nat) → Nat
  | [] => 0
  | (width, _) :: fields => width + recordSize fields

section Records
variable {fields before after : List (Nat × Nat)} {rest : List Byte} {width val : Nat}

@[simp] theorem recordBytes_append : recordBytes (before ++ after) = recordBytes before ++ recordBytes after := by
  simp [recordBytes]

@[simp] theorem recordBytes_cons : recordBytes ((width, val) :: after) = leBytes width val ++ recordBytes after := rfl

@[simp] theorem recordSize_append : recordSize (before ++ after) = recordSize before + recordSize after := by
  induction before with
  | nil => simp [recordSize]
  | cons field before ih => simp [recordSize, ih, Nat.add_assoc]

@[simp] theorem length_recordBytes : (recordBytes fields).length = recordSize fields := by
  induction fields with
  | nil => rfl
  | cons field fields ih => rw [recordBytes_cons, List.length_append, length_leBytes, ih, recordSize]

theorem leValue_leBytes (small : val < 256 ^ width) : leValue (leBytes width val) = val := by
  induction width generalizing val with
  | zero =>
    rw [Nat.pow_zero, Nat.lt_one_iff] at small
    exact small.symm
  | succ width ih =>
    have high : val / 256 < 256 ^ width := by
      rw [Nat.pow_succ] at small
      exact Nat.div_lt_of_lt_mul (by omega)
    rw [leBytes, leValue, ih high, BitVec.toNat_ofNat]
    omega

/-- A field is read back from behind the fields before it. -/
theorem record_field (small : val < 256 ^ width) :
    leValue (((recordBytes (before ++ (width, val) :: after) ++ rest).drop (recordSize before)).take width) = val := by
  rw [recordBytes_append, recordBytes_cons, List.append_assoc, List.append_assoc,
    List.drop_left' length_recordBytes, List.take_left' length_leBytes, leValue_leBytes small]

end Records

end GooseOs
