import TamgaOs.Drivers.Mpu6050
import TamgaOs.Properties.SensorReads

/-!
# The data of the MPU6050

`mpu6050_read` puts the bytes of one transfer together: the data that it returns is the data that the
sensor has sent. When it fails the data of the caller is as before. `mpu6050_init` succeeds only with a
sensor that has answered `WHO_AM_I` with 0x68.

## Main definitions

* `Mpu6050Data.encode`: the bytes that the sensor sends for its data.
* `SensorReport`, `SensorLog`, `Mpu6050.note`: what the calls have returned.
* `Mpu6050.Sound`: the invariant.

## Main results

* `mpu6050_reads_sensor`: for every call of `mpu6050_init` and `mpu6050_read`.
-/

namespace TamgaOs

/-- The bytes of a value, the upper one first. -/
def splitBytes (v : Int16) : List UInt8 := [(v.toUInt16 >>> 8).toUInt8, v.toUInt16.toUInt8]

/-- The bytes that the sensor sends for its data. -/
def Mpu6050Data.encode (d : Mpu6050Data) : List UInt8 :=
  [d.accelX, d.accelY, d.accelZ, d.tempRaw, d.gyroX, d.gyroY, d.gyroZ].flatMap splitBytes

/-- A call that has returned. -/
inductive SensorReport
  /-- `mpu6050_init`, and the answer to `WHO_AM_I`. -/
  | init (r : ℤ) (who : List UInt8)
  /-- `mpu6050_read`, the data of the caller before and after it, and the bytes of the transfer. -/
  | read (r : ℤ) (before after : Mpu6050Data) (bytes : List UInt8)

/-- What is recorded beside a run. -/
structure SensorLog where
  /-- The bytes that have been received since the last transfer of `i2c_read` began. -/
  bytes : List UInt8 := []
  who : List UInt8 := []
  before : Mpu6050Data := ⟨0, 0, 0, 0, 0, 0, 0⟩
  reports : List SensorReport := []

/-- The return value says what has happened. -/
def SensorReport.Right : SensorReport → Prop
  | init r who =>
    (r = 0 ∧ who = [0x68]) ∨ (r = -2 ∧ ∃ b, b ≠ 0x68 ∧ who = [b]) ∨ r = -1
  | read r before after bytes => (r = 0 ∧ after.encode = bytes) ∨ (r = -1 ∧ after = before)

/-! ### Bytes -/

theorem splitBytes_joinBytes (hi lo : UInt8) : splitBytes (joinBytes hi lo) = [hi, lo] := by
  have hupper : ((hi.toUInt16 <<< 8 ||| lo.toUInt16) >>> 8).toUInt8 = hi := by
    apply UInt8.toBitVec_inj.1
    ext i hi'
    have hlt : 8 + i < 16 := by omega
    have hlt' : i < 16 := by omega
    simp [hlt, hlt', BitVec.getLsbD_eq_getElem hi']
  have hlower : (hi.toUInt16 <<< 8 ||| lo.toUInt16).toUInt8 = lo := by
    apply UInt8.toBitVec_inj.1
    ext i hi'
    simp
  rw [splitBytes, joinBytes, UInt16.toUInt16_toInt16, hupper, hlower]

/-- The data is put together from its bytes. -/
theorem encode_ofBuf (buf : ℕ → UInt8) :
    (Mpu6050Data.ofBuf buf).encode = (List.range 14).map buf := by
  simp only [Mpu6050Data.encode, Mpu6050Data.ofBuf, List.flatMap_cons, List.flatMap_nil,
    splitBytes_joinBytes]
  rfl

/-! ### The I2C master -/

namespace I2c

variable {s s' : I2c} {a : I2cAction} {o : List I2cObs} {c : I2cCtl}

/-- A step of the controller or of the slave leaves the call as it is. -/
theorem onBus_eq (ha : a.onBus = true) (hs : s.step a = some (s', o)) :
    s'.ctl = s.ctl ∧ s'.readLen = s.readLen ∧ s'.buf = s.buf := by
  cases a with
  | write | read | exec => cases ha
  | ack =>
    obtain ⟨s₁, hs₁, heq⟩ := Option.map_eq_some_iff.mp hs
    cases heq
    rw [(ackStep_eq hs₁).2.2]
    exact ⟨rfl, rfl, rfl⟩
  | nack =>
    obtain ⟨s₁, hs₁, heq⟩ := Option.map_eq_some_iff.mp hs
    cases heq
    rw [(nackStep_eq hs₁).2.2]
    exact ⟨rfl, rfl, rfl⟩
  | byte b =>
    obtain ⟨s₁, hs₁, heq⟩ := Option.map_eq_some_iff.mp hs
    cases heq
    rw [(byteStep_eq hs₁).2]
    exact ⟨rfl, rfl, rfl⟩
  | stop | line busy =>
    simp only [I2c.step] at hs
    split at hs <;> cases hs
    exact ⟨rfl, rfl, rfl⟩

/-- A statement that does not return goes on with the call. -/
theorem execStep_cases (c : I2cCtl) :
    ((s.execStep c).2 = [] ∧ (s.execStep c).1.readLen = s.readLen) ∨
    (∃ r, c = .writeReturn r ∧ (s.execStep c).2 = [.returned .write r] ∧
      (s.execStep c).1.readLen = s.readLen ∧ (s.readLen = none → (s.execStep c).1.ctl = none)) ∨
    ∃ r, c = .readReturn r ∧ (s.execStep c).2 = [.returned .read r] ∧
      (s.execStep c).1.readLen = none ∧ (s.execStep c).1.ctl = none ∧
      (s.execStep c).1.buf = s.buf := by
  cases c with
  | writeReturn r => exact .inr (.inl ⟨r, rfl, rfl, rfl, fun h => by rw [execStep, h]; rfl⟩)
  | readReturn r => exact .inr (.inr ⟨r, rfl, rfl, rfl, rfl, rfl⟩)
  | store i =>
    refine .inl ⟨rfl, ?_⟩
    rw [execStep, nextByte, writeTxdr_eq]
    rfl
  | _ => exact .inl ⟨rfl, rfl⟩

end I2c

namespace Mpu6050

variable {m m' : Mpu6050} {g : SensorLog} {a : Mpu6050Action} {o : List Mpu6050Obs} {c : Mpu6050Ctl}

/-- The record of a step. -/
def note (m : Mpu6050) (a : Mpu6050Action) (o : List Mpu6050Obs) (g : SensorLog) : SensorLog :=
  match a with
  | .init => g
  | .read => { g with before := m.data }
  | .bus b => { g with bytes := m.i2c.noteByte b [] g.bytes }
  | .exec =>
    { bytes := m.i2c.noteByte .exec [] g.bytes
      who := if m.ctl = some .checkWho then g.bytes else g.who
      before := g.before
      reports := g.reports ++ o.map fun
        | .initReturned r => .init r g.who
        | .readReturned r => .read r g.before m.data g.bytes }

/-- No byte comes after `i2c_read` has given up on it. -/
def Punctual (m : Mpu6050) : Mpu6050Action → Prop
  | .bus b => m.i2c.Punctual b
  | _ => True

/-- What holds at a program point. -/
def Expects (m : Mpu6050) (g : SensorLog) : Mpu6050Ctl → Prop
  | .who => m.i2c.ctl = none
  | .whoWait => m.i2c.readLen = some 1
  | .checkWho => m.i2c.ctl = none ∧ g.bytes = [m.i2c.buf 0]
  | .write _ => m.i2c.ctl = none ∧ g.who = [0x68]
  | .writeWait _ => m.i2c.readLen = none ∧ g.who = [0x68]
  | .initReturn r => m.i2c.ctl = none ∧ (SensorReport.init r g.who).Right
  | .read => m.i2c.ctl = none ∧ m.data = g.before
  | .readWait => m.i2c.readLen = some 14 ∧ m.data = g.before
  | .decode => m.i2c.ctl = none ∧ g.bytes = (List.range 14).map m.i2c.buf
  | .readReturn r => m.i2c.ctl = none ∧ (SensorReport.read r g.before m.data g.bytes).Right

/-- The invariant. -/
structure Sound (m : Mpu6050) (g : SensorLog) : Prop where
  received : m.i2c.Received g.bytes
  idle : m.ctl = none → m.i2c.ctl = none
  expects : ∀ c, m.ctl = some c → m.Expects g c
  reports : ∀ r ∈ g.reports, r.Right

/-- Without a call of the I2C master nothing is received. -/
theorem noteByte_idle (hctl : m.i2c.ctl = none) {b : I2cAction} (hok : m.i2c.Punctual b)
    (o : List I2cObs) (bs : List UInt8) : m.i2c.noteByte b o bs = bs := by
  cases b with
  | exec =>
    rw [I2c.noteByte, hctl]
    rfl
  | byte b =>
    rw [I2c.Punctual, hctl] at hok
    cases hok
  | _ => rfl

theorem noteByte_exec (hctl : m.i2c.ctl = none) (bs : List UInt8) :
    m.i2c.noteByte .exec [] bs = bs := by
  rw [I2c.noteByte, hctl]
  rfl

/-- A step of the controller or of the slave. -/
theorem Sound.bus {b : I2cAction} {i : I2c} {oi : List I2cObs} (h : m.Sound g)
    (hb : b.onBus = true) (hok : m.i2c.Punctual b) (hs : m.i2c.step b = some (i, oi)) :
    { m with i2c := i }.Sound { g with bytes := m.i2c.noteByte b oi g.bytes } := by
  obtain ⟨hctl, hlen, hbuf⟩ := I2c.onBus_eq hb hs
  have hnote (hidle : m.i2c.ctl = none) : m.i2c.noteByte b oi g.bytes = g.bytes :=
    noteByte_idle hidle hok oi g.bytes
  refine ⟨h.received.step hok hs, fun hnone => hctl.trans (h.idle hnone), fun c hc => ?_,
    h.reports⟩
  have hexpects := h.expects c hc
  cases c with
  | who => exact hctl.trans hexpects
  | whoWait => exact hlen.trans hexpects
  | checkWho =>
    refine ⟨hctl.trans hexpects.1, ?_⟩
    dsimp only
    rw [hnote hexpects.1, hbuf]
    exact hexpects.2
  | write k => exact ⟨hctl.trans hexpects.1, hexpects.2⟩
  | writeWait k => exact ⟨hlen.trans hexpects.1, hexpects.2⟩
  | initReturn r => exact ⟨hctl.trans hexpects.1, hexpects.2⟩
  | read => exact ⟨hctl.trans hexpects.1, hexpects.2⟩
  | readWait => exact ⟨hlen.trans hexpects.1, hexpects.2⟩
  | decode =>
    refine ⟨hctl.trans hexpects.1, ?_⟩
    dsimp only
    rw [hnote hexpects.1, hbuf]
    exact hexpects.2
  | readReturn r =>
    refine ⟨hctl.trans hexpects.1, ?_⟩
    dsimp only
    rw [hnote hexpects.1]
    exact hexpects.2

/-- A statement of the I2C master. -/
theorem Sound.await {fn : I2cFn} {next : ℤ → Mpu6050Ctl} (h : m.Sound g)
    (hs : m.await fn next = some (m', o)) :
    o = [] ∧ m'.data = m.data ∧ m'.i2c.Received (m.i2c.noteByte .exec [] g.bytes) ∧
      ∃ i, m.i2c.ctl = some i ∧ m'.i2c = (m.i2c.execStep i).1 ∧
        m'.ctl = (m.i2c.execStep i).2.foldl (fun c o => match o with
          | .returned f v => if f = fn then some (next v) else c) m.ctl := by
  obtain ⟨⟨i, oi⟩, hstep, heq⟩ := Option.map_eq_some_iff.mp hs
  cases heq
  obtain ⟨c, hctl, hexec⟩ := I2c.exec_eq hstep
  have hreceived : i.Received (m.i2c.noteByte .exec oi g.bytes) := h.received.step trivial hstep
  exact ⟨rfl, rfl, hreceived, c, hctl, by rw [hexec], by rw [hexec]⟩

/-- While a call of `i2c_read` is awaited. -/
theorem Sound.await_read {next : ℤ → Mpu6050Ctl} {n : UInt8} (h : m.Sound g)
    (hlen : m.i2c.readLen = some n) (hs : m.await .read next = some (m', o)) :
    (m'.ctl = m.ctl ∧ m'.i2c.readLen = some n) ∨
      ∃ r, m'.ctl = some (next r) ∧ m'.i2c.ctl = none ∧ (0 ≤ r →
        m.i2c.noteByte .exec [] g.bytes = (List.range n.toNat).map m'.i2c.buf) := by
  obtain ⟨-, -, -, i, hctl, hi2c, hctl'⟩ := h.await hs
  rw [hi2c, hctl']
  rcases m.i2c.execStep_cases i with ⟨ho, hsame⟩ | ⟨r, -, ho, hsame, -⟩ | ⟨r, rfl, ho, -, hnone, hbuf⟩
  · rw [ho]
    exact .inl ⟨rfl, hsame.trans hlen⟩
  · rw [ho]
    exact .inl ⟨rfl, hsame.trans hlen⟩
  · rw [ho]
    refine .inr ⟨r, rfl, hnone, fun hr => ?_⟩
    have hloads := h.received.loads _ hctl
    have hbytes := (hloads.2 hr).eq_ofFn hloads.1
    have hread : m.i2c.toRead = n.toNat := by rw [I2c.toRead, hlen]; rfl
    rw [I2c.noteByte, hctl, hbuf, ← hread]
    exact hbytes

/-- While a call of `i2c_write` is awaited. -/
theorem Sound.await_write {next : ℤ → Mpu6050Ctl} (h : m.Sound g) (hlen : m.i2c.readLen = none)
    (hs : m.await .write next = some (m', o)) :
    (m'.ctl = m.ctl ∧ m'.i2c.readLen = none) ∨ ∃ r, m'.ctl = some (next r) ∧ m'.i2c.ctl = none := by
  obtain ⟨-, -, -, i, -, hi2c, hctl'⟩ := h.await hs
  rw [hi2c, hctl']
  rcases m.i2c.execStep_cases i with ⟨ho, hsame⟩ | ⟨r, -, ho, hsame, hnone⟩ | ⟨r, -, ho, hsame, -⟩
  · rw [ho]
    exact .inl ⟨rfl, hsame.trans hlen⟩
  · rw [ho]
    exact .inr ⟨r, rfl, hnone hlen⟩
  · rw [ho]
    exact .inl ⟨rfl, hsame⟩

/-- A call of the I2C master is started. -/
theorem Sound.call {b : I2cAction} (h : m.Sound g) (hctl : m.i2c.ctl = none)
    (hpunctual : m.i2c.Punctual b) (hs : m.call b c = some (m', o)) :
    o = [] ∧ m'.data = m.data ∧ m'.ctl = some c ∧ m'.i2c.Received g.bytes ∧
      ∃ oi, m.i2c.step b = some (m'.i2c, oi) := by
  obtain ⟨⟨i, oi⟩, hstep, heq⟩ := Option.map_eq_some_iff.mp hs
  cases heq
  have hreceived := h.received.step hpunctual hstep
  rw [noteByte_idle hctl hpunctual] at hreceived
  exact ⟨rfl, rfl, rfl, hreceived, oi, hstep⟩

/-- The call goes on. -/
theorem Sound.of_ctl (hctl : m.ctl = some c) (hreceived : m.i2c.Received g.bytes)
    (hexpects : m.Expects g c) (hreports : ∀ r ∈ g.reports, r.Right) : m.Sound g := by
  refine ⟨hreceived, fun hnone => ?_, fun c' hc' => ?_, hreports⟩
  · cases hctl.symm.trans hnone
  · cases hctl.symm.trans hc'
    exact hexpects

/-- The record of a statement that reports nothing. -/
theorem note_eq (hne : m.ctl ≠ some .checkWho) :
    m.note .exec [] g = { g with bytes := m.i2c.noteByte .exec [] g.bytes } := by
  rw [note]
  simp only [if_neg hne, List.map_nil, List.append_nil]

theorem note_idle (hne : m.ctl ≠ some .checkWho) (hctl : m.i2c.ctl = none) :
    m.note .exec [] g = g := by
  rw [note_eq hne, noteByte_exec hctl]

/-- Every statement preserves the invariant. -/
theorem Expects.exec (hc : m.Expects g c) (h : m.Sound g) (hctl : m.ctl = some c)
    (hs : m.execStep c = some (m', o)) :
    m'.Sound (m.note .exec o g) := by
  have hne (hc' : c ≠ .checkWho) : m.ctl ≠ some .checkWho := fun heq =>
    hc' (Option.some.inj (hctl.symm.trans heq))
  cases c with
  | who =>
    obtain ⟨rfl, -, hctl', hreceived, oi, hstep⟩ :=
      h.call (b := .read mpu6050Addr 0x75 1) hc trivial hs
    rw [note_idle (hne Mpu6050Ctl.noConfusion) hc]
    simp only [I2c.step, show m.i2c.ctl = none from hc, Option.some.injEq, Prod.mk.injEq] at hstep
    exact .of_ctl hctl' hreceived (by rw [Expects, ← hstep.1]) h.reports
  | whoWait =>
    change m.await .read (fun r => if r < 0 then .initReturn (-1) else .checkWho) = _ at hs
    obtain ⟨rfl, -, hreceived, -⟩ := h.await hs
    rw [note_eq (hne Mpu6050Ctl.noConfusion)]
    rcases h.await_read hc hs with ⟨hctl', hlen⟩ | ⟨r, hctl', hidle, hbytes⟩
    · exact .of_ctl (hctl'.trans hctl) hreceived hlen h.reports
    · split_ifs at hctl' with hr
      · exact .of_ctl hctl' hreceived ⟨hidle, .inr (.inr rfl)⟩ h.reports
      · exact .of_ctl hctl' hreceived ⟨hidle, hbytes (Int.not_lt.1 hr)⟩ h.reports
  | checkWho =>
    cases hs
    obtain ⟨hidle, hwho⟩ := hc
    have hnote : m.note .exec [] g = { g with who := g.bytes } := by
      rw [note]
      simp only [if_pos hctl, noteByte_exec hidle, List.map_nil, List.append_nil]
    rw [hnote]
    by_cases hbyte : m.i2c.buf 0 = 0x68
    · rw [if_neg (not_not.2 hbyte)]
      exact .of_ctl rfl h.received ⟨hidle, by rw [hwho, hbyte]⟩ h.reports
    · rw [if_pos hbyte]
      exact .of_ctl rfl h.received ⟨hidle, .inr (.inl ⟨rfl, _, hbyte, hwho⟩)⟩ h.reports
  | write k =>
    obtain ⟨hidle, hwho⟩ := hc
    rw [execStep] at hs
    split at hs
    · cases hs
      rw [note_idle (hne Mpu6050Ctl.noConfusion) hidle]
      exact .of_ctl rfl h.received ⟨hidle, .inl ⟨rfl, hwho⟩⟩ h.reports
    · rename_i reg val hconfig
      obtain ⟨rfl, -, hctl', hreceived, oi, hstep⟩ :=
        h.call (b := .write mpu6050Addr (fun i => if i = 0 then reg else val) 2) hidle trivial hs
      rw [note_idle (hne Mpu6050Ctl.noConfusion) hidle]
      simp only [I2c.step, hidle, Option.some.injEq, Prod.mk.injEq] at hstep
      exact .of_ctl hctl' hreceived ⟨by rw [← hstep.1], hwho⟩ h.reports
  | writeWait k =>
    change m.await .write (fun r => if r < 0 then .initReturn (-1) else .write (k + 1)) = _ at hs
    obtain ⟨rfl, -, hreceived, -⟩ := h.await hs
    rw [note_eq (hne Mpu6050Ctl.noConfusion)]
    rcases h.await_write hc.1 hs with ⟨hctl', hlen⟩ | ⟨r, hctl', hidle⟩
    · exact .of_ctl (hctl'.trans hctl) hreceived ⟨hlen, hc.2⟩ h.reports
    · split_ifs at hctl' with hr
      · exact .of_ctl hctl' hreceived ⟨hidle, .inr (.inr rfl)⟩ h.reports
      · exact .of_ctl hctl' hreceived ⟨hidle, hc.2⟩ h.reports
  | initReturn r =>
    cases hs
    have hreports : ∀ rep ∈ g.reports ++ [.init r g.who], rep.Right := by
      intro rep hrep
      rcases List.mem_append.1 hrep with hrep | hrep
      · exact h.reports rep hrep
      · rw [List.mem_singleton.1 hrep]
        exact hc.2
    refine ⟨?_, fun _ => hc.1, fun _ hsome => absurd hsome.symm (Option.some_ne_none _), hreports⟩
    rw [note, noteByte_exec hc.1]
    exact h.received
  | read =>
    obtain ⟨rfl, hdata, hctl', hreceived, oi, hstep⟩ :=
      h.call (b := .read mpu6050Addr 0x3B 14) hc.1 trivial hs
    rw [note_idle (hne Mpu6050Ctl.noConfusion) hc.1]
    simp only [I2c.step, hc.1, Option.some.injEq, Prod.mk.injEq] at hstep
    exact .of_ctl hctl' hreceived ⟨by rw [← hstep.1], hdata.trans hc.2⟩ h.reports
  | readWait =>
    change m.await .read (fun r => if r < 0 then .readReturn (-1) else .decode) = _ at hs
    obtain ⟨rfl, hdata, hreceived, -⟩ := h.await hs
    rw [note_eq (hne Mpu6050Ctl.noConfusion)]
    rcases h.await_read hc.1 hs with ⟨hctl', hlen⟩ | ⟨r, hctl', hidle, hbytes⟩
    · exact .of_ctl (hctl'.trans hctl) hreceived ⟨hlen, hdata.trans hc.2⟩ h.reports
    · split_ifs at hctl' with hr
      · exact .of_ctl hctl' hreceived ⟨hidle, .inr ⟨rfl, hdata.trans hc.2⟩⟩ h.reports
      · exact .of_ctl hctl' hreceived ⟨hidle, hbytes (Int.not_lt.1 hr)⟩ h.reports
  | decode =>
    cases hs
    rw [note_idle (hne Mpu6050Ctl.noConfusion) hc.1]
    refine .of_ctl rfl h.received ⟨hc.1, .inl ⟨rfl, ?_⟩⟩ h.reports
    rw [hc.2]
    exact encode_ofBuf m.i2c.buf
  | readReturn r =>
    cases hs
    have hreports : ∀ rep ∈ g.reports ++ [.read r g.before m.data g.bytes], rep.Right := by
      intro rep hrep
      rcases List.mem_append.1 hrep with hrep | hrep
      · exact h.reports rep hrep
      · rw [List.mem_singleton.1 hrep]
        exact hc.2
    refine ⟨?_, fun _ => hc.1, fun _ hsome => absurd hsome.symm (Option.some_ne_none _), hreports⟩
    rw [note, noteByte_exec hc.1]
    exact h.received

/-- Between two calls, before the first one. -/
def start (data : Mpu6050Data) : Mpu6050 := { i2c := .init, data := data, ctl := none }

theorem sound_start (data : Mpu6050Data) : (start data).Sound {} :=
  ⟨I2c.received_init, fun _ => rfl, fun _ hsome => absurd hsome.symm (Option.some_ne_none _),
    fun _ hr => absurd hr List.not_mem_nil⟩

/-- Every step preserves the invariant. -/
theorem Sound.step (h : m.Sound g) (hok : m.Punctual a) (hs : m.step a = some (m', o)) :
    m'.Sound (m.note a o g) := by
  cases a with
  | init =>
    rw [Mpu6050.step] at hs
    split_ifs at hs with hctl
    cases hs
    exact .of_ctl rfl h.received (h.idle hctl) h.reports
  | read =>
    rw [Mpu6050.step] at hs
    split_ifs at hs with hctl
    cases hs
    exact .of_ctl rfl h.received ⟨h.idle hctl, rfl⟩ h.reports
  | exec =>
    obtain ⟨c, hctl, hexec⟩ := Option.bind_eq_some_iff.1 hs
    exact (h.expects c hctl).exec h hctl hexec
  | bus b =>
    rw [Mpu6050.step] at hs
    split_ifs at hs with hb
    obtain ⟨⟨i, oi⟩, hstep, heq⟩ := Option.map_eq_some_iff.1 hs
    cases heq
    have hbus : { m with i2c := i }.Sound { g with bytes := m.i2c.noteByte b oi g.bytes } :=
      h.bus hb hok hstep
    exact hbus

end Mpu6050

open Mpu6050 in
/-- In every run in which no byte comes after `i2c_read` has given up on it: `mpu6050_read` returns 0 with
the data that the sensor has sent in one transfer, or -1 with the data as it was, and `mpu6050_init`
returns 0 or -2 as the answer to `WHO_AM_I` is 0x68 or not, or -1. -/
theorem mpu6050_reads_sensor {data : Mpu6050Data} {m : Mpu6050} {g : SensorLog}
    {out : List Mpu6050Obs}
    (h : Run.Reach (Run.annotate step note) (fun p a => Punctual p.1 a) (start data, {}) (m, g) out) :
    ∀ r ∈ g.reports, r.Right := by
  have hsound : m.Sound g := by
    refine h.invariant (I := fun p => p.1.Sound p.2) (sound_start data) ?_
    rintro ⟨m, g⟩ ⟨m', g'⟩ a o hI hok hs
    obtain ⟨hstep, rfl⟩ := Run.annotate_eq_some.1 hs
    exact hI.step hok hstep
  exact hsound.reports

namespace Mpu6050

instance (m : Mpu6050) (a : Mpu6050Action) : Decidable (m.Punctual a) :=
  match a with
  | .bus b => inferInstanceAs (Decidable (m.i2c.Punctual b))
  | .init | .read | .exec => .isTrue trivial

/-- A call of `mpu6050_read`. The sensor acknowledges everything, and sends the bytes. -/
def readBytes (bytes : List UInt8) : List Mpu6050Action :=
  [.read, .exec, .exec, .exec, .bus .ack, .exec, .exec, .exec, .exec, .bus .ack, .bus .stop, .exec,
    .exec, .exec, .exec, .exec, .exec, .bus .ack] ++
  (bytes.flatMap fun b => [.bus (.byte b), .exec, .exec]) ++
  [.bus .stop, .exec, .exec, .exec, .exec, .exec, .exec]

/-- Fourteen bytes. -/
def sampleBytes : List UInt8 := [0x40, 0, 0xFF, 0xFE, 0, 1, 0x0B, 0, 0x80, 0, 0, 2, 0x7F, 0xFF]

theorem readBytes_possible : (Run.exec (Run.annotate step note) (start ⟨0, 0, 0, 0, 0, 0, 0⟩, {})
    (readBytes sampleBytes)).isSome = true := by decide +kernel

end Mpu6050

open Mpu6050 in
theorem mpu6050_reads_sensor_sample :
    let p := ((Run.exec (Run.annotate step note) (start ⟨0, 0, 0, 0, 0, 0, 0⟩, {})
      (readBytes sampleBytes)).get readBytes_possible).1
    p.1.data = ⟨16384, -2, 1, 2816, -32768, 2, 32767⟩ ∧ p.2.reports.length = 1 ∧
      ∀ r ∈ p.2.reports, r.Right := by
  intro p
  have hrun : Run.Reach (Run.annotate step note) (fun p a => Punctual p.1 a)
      (start ⟨0, 0, 0, 0, 0, 0, 0⟩, {}) p ((Run.exec (Run.annotate step note)
        (start ⟨0, 0, 0, 0, 0, 0, 0⟩, {}) (readBytes sampleBytes)).get readBytes_possible).2 :=
    .exec (by decide +kernel) readBytes_possible
  exact ⟨by decide +kernel, by decide +kernel, mpu6050_reads_sensor hrun⟩

end TamgaOs
