import T38Modem.DataStream

namespace T38Modem

/-- `T38_Type_of_msg_t30_indicator`. The indicators the engine does not know are `other`. -/
inductive Indicator where
  | noSignal | cng | ced | v21Preamble
  | v27_2400Training | v27_4800Training | v29_7200Training | v29_9600Training
  | v17_7200ShortTraining | v17_7200LongTraining | v17_9600ShortTraining | v17_9600LongTraining
  | v17_12000ShortTraining | v17_12000LongTraining | v17_14400ShortTraining | v17_14400LongTraining
  | other (n : Nat)
  deriving DecidableEq, Repr

/-- `T38_Type_of_msg_data`. -/
inductive MsgType where
  | v21 | v27_2400 | v27_4800 | v29_7200 | v29_9600 | v17_7200 | v17_9600 | v17_12000 | v17_14400
  | other (n : Nat)
  deriving DecidableEq, Repr

/-- `T38_Data_Field_subtype_field_type`. -/
inductive FieldType where
  | hdlcData | hdlcSigEnd | hdlcFcsOK | hdlcFcsBAD | hdlcFcsOKSigEnd | hdlcFcsBADSigEnd
  | t4NonEcmData | t4NonEcmSigEnd
  | other (n : Nat)
  deriving DecidableEq, Repr

/-- A field of a data packet. The octets are optional. -/
structure DataField where
  fieldType : FieldType
  fieldData : Option (List Byte) := none
  deriving DecidableEq, Repr

/-- `T38_IFP`, the optional field of a data packet being its list of data fields. -/
inductive Ifp where
  | t30Indicator (type : Indicator)
  | data (type : MsgType) (fields : Option (List DataField))
  | badTag
  deriving DecidableEq, Repr

/-- `t38indicator` -/
def t38indicator (type : Indicator) : Ifp := .t30Indicator type

/-- `t38data`, which leaves out the octets where there are none. -/
def t38data (type : MsgType) (fieldType : FieldType) (bs : List Byte) : Ifp :=
  .data type (some [⟨fieldType, if bs = [] then none else some bs⟩])

/-- `unsigned(-1)` -/
def unsignedMinusOne : Nat := 0xFFFFFFFF

/-- `MODPARS` -/
structure ModPars where
  dataType : DataType := .dtNone
  dataTypeT38 : DataType := .dtNone
  val : Int := -1
  ind : Indicator := .other unsignedMinusOne
  lenInd : Int := -1
  msgType : MsgType := .other unsignedMinusOne
  br : Int := -1
  deriving DecidableEq, Repr

namespace ModPars

def isModValid (m : ModPars) : Bool := 0 ≤ m.val

def isEqual (m mp : ModPars) : Bool := m.msgType == mp.msgType

/-- A row of the table `mods`. -/
def row (val : Int) (ind : Indicator) (lenInd : Int) (msgType : MsgType) (br : Int) : ModPars :=
  { val, ind, lenInd, msgType, br }

end ModPars

def mods : List ModPars := [
  .row 3 .v21Preamble 900 .v21 300,
  .row 24 .v27_2400Training 1100 .v27_2400 2400,
  .row 48 .v27_4800Training 900 .v27_4800 4800,
  .row 72 .v29_7200Training 300 .v29_7200 7200,
  .row 73 .v17_7200LongTraining 1500 .v17_7200 7200,
  .row 74 .v17_7200ShortTraining 300 .v17_7200 7200,
  .row 96 .v29_9600Training 300 .v29_9600 9600,
  .row 97 .v17_9600LongTraining 1500 .v17_9600 9600,
  .row 98 .v17_9600ShortTraining 300 .v17_9600 9600,
  .row 121 .v17_12000LongTraining 1500 .v17_12000 12000,
  .row 122 .v17_12000ShortTraining 300 .v17_12000 12000,
  .row 145 .v17_14400LongTraining 1500 .v17_14400 14400,
  .row 146 .v17_14400ShortTraining 300 .v17_14400 14400]

def invalidMods : ModPars := {}

/-- `GetModPars(key, by_val)` -/
def getModPars (key : Int) : ModPars := (mods.find? (·.val = key)).getD invalidMods

/-- `GetModPars(key, by_ind)` -/
def getModParsByInd (key : Indicator) : ModPars := (mods.find? (·.ind = key)).getD invalidMods

/-- The signal of the row carries HDLC frames in T.38. -/
def hdlcT38 (m : ModPars) (hdlcOnly : Bool) : DataType :=
  if m.msgType = .v21 ∨ hdlcOnly = true then .dtHdlc else .dtRaw

theorem getModPars_mem {key : Int} (h : (getModPars key).isModValid = true) : getModPars key ∈ mods := by
  unfold getModPars at h ⊢
  cases hf : mods.find? (·.val = key) with
  | none => simp [hf, ModPars.isModValid, invalidMods] at h
  | some m => simpa using List.mem_of_find?_eq_some hf

theorem mods_row {m : ModPars} (h : m ∈ mods) : 0 ≤ m.val ∧ 300 ≤ m.br ∧ m.br ≤ 14400 := by
  simp only [mods, List.mem_cons, List.not_mem_nil, or_false] at h
  rcases h with rfl | rfl | rfl | rfl | rfl | rfl | rfl | rfl | rfl | rfl | rfl | rfl | rfl <;> decide

/-- Every row is found by its indicator. -/
theorem getModParsByInd_row {m : ModPars} (h : m ∈ mods) : getModParsByInd m.ind = m := by
  simp only [mods, List.mem_cons, List.not_mem_nil, or_false] at h
  rcases h with rfl | rfl | rfl | rfl | rfl | rfl | rfl | rfl | rfl | rfl | rfl | rfl | rfl <;> rfl

end T38Modem
