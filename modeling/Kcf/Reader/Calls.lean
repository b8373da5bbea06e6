import Kcf.Archive.Basic
import Kcf.Library.CallMachine
import Kcf.Reader.Cases

/-! # The reader as a machine

The calls that read records, each with all that it returns and stores for its
caller. A client may also look at the handle between two calls.
-/

namespace Kcf

open CallMachine

/-- The calls that read records; a null pointer is `none`. -/
inductive ReaderCall
  | readRecord (R : Option Record)
  | readAddedData (bufferSize : Option ℕ)
  | isAddedDataAvailable
  | skipRecord (fuel : ℕ) (header : Record)
  | startReading

/-- What a call returns and stores for its caller. -/
inductive ReaderResult
  | record (error : KcfError) (R : Option Record)
  | addedData (error : KcfError) (bytes : List UInt8) (bytesRead : Option ℕ)
  | available (answer : Bool)
  | done (error : KcfError)

/-- The error a call returns; a question has none. -/
def ReaderResult.error : ReaderResult → KcfError
  | record error _ => error
  | addedData error _ _ => error
  | available _ => .ok
  | done error => error

/-- What `KCF_read_record` returns, as an answer. -/
def ofRecord : KcfError × KCF × Option Record → ReaderResult × KCF
  | (error, kcf, R) => (.record error R, kcf)

/-- What `KCF_read_added_data` returns, as an answer. -/
def ofAddedData : KcfError × KCF × List UInt8 × Option ℕ → ReaderResult × KCF
  | (error, kcf, bytes, bytesRead) => (.addedData error bytes bytesRead, kcf)

/-- What the other calls return, as an answer. -/
def ofDone : KcfError × KCF → ReaderResult × KCF
  | (error, kcf) => (.done error, kcf)

/-- Make a call. -/
def readerStep (c : ReaderCall) (kcf : KCF) : Exec (ReaderResult × KCF) :=
  match c with
  | .readRecord R => .ok (ofRecord (kcf.readRecord R))
  | .readAddedData bufferSize => (kcf.readAddedData bufferSize).map ofAddedData
  | .isAddedDataAvailable => .ok (.available kcf.isAddedDataAvailable, kcf)
  | .skipRecord fuel header => (kcf.skipRecord fuel header).map ofDone
  | .startReading => kcf.startReading.map ofDone

namespace KCF

variable {kcf k : KCF} {a : ReaderResult}

theorem readRecord_of_step {R : Record}
    (h : readerStep (.readRecord (some R)) kcf = .ok (a, k)) : kcf.ReadRecord a.error k := by
  have hc := kcf.readRecord_cases R
  change Except.ok (ofRecord (kcf.readRecord (some R))) = _ at h
  generalize kcf.readRecord (some R) = x at hc h
  obtain ⟨e, k, R'⟩ := x
  cases h
  exact hc

theorem readAddedData_of_step {bufferSize : ℕ}
    (h : readerStep (.readAddedData (some bufferSize)) kcf = .ok (a, k)) :
    kcf.ReadAdded a.error k := by
  obtain ⟨r, hx, hr⟩ := Exec.map_ok h
  cases hr
  exact readAddedData_cases hx

theorem skipRecord_of_step {fuel : ℕ} {header : Record}
    (h : readerStep (.skipRecord fuel header) kcf = .ok (a, k)) : kcf.SkipRecord a.error k := by
  obtain ⟨r, hx, hr⟩ := Exec.map_ok h
  cases hr
  exact skipRecord_cases hx

theorem startReading_of_reading (h : kcf.parserState = .readRecordHeader ∨
    kcf.parserState = .readRecordData ∨ kcf.parserState = .readAddedData) :
    kcf.startReading = .ok (.ok, kcf) := by
  unfold startReading
  rcases h with h | h | h <;> rw [h]

theorem startReading_eq {e : KcfError} (hs : kcf.parserState = .readRecordHeader ∨
      kcf.parserState = .readRecordData ∨ kcf.parserState = .readAddedData)
    (h : kcf.startReading = .ok (e, k)) : e = .ok ∧ k = kcf := by
  rw [startReading_of_reading hs] at h
  cases h
  exact ⟨rfl, rfl⟩

/-- What each call of the reader can do. -/
inductive Stepped (kcf : KCF) : ReaderCall → KcfError → KCF → Prop
  | nullRecord : Stepped kcf (.readRecord none) .invalidParameter kcf
  | record {R : Record} {e : KcfError} {k : KCF} : kcf.ReadRecord e k →
      Stepped kcf (.readRecord (some R)) e k
  | nullBuffer : Stepped kcf (.readAddedData none) .invalidParameter kcf
  | added {bufferSize : ℕ} {e : KcfError} {k : KCF} : kcf.ReadAdded e k →
      Stepped kcf (.readAddedData (some bufferSize)) e k
  | asked : Stepped kcf .isAddedDataAvailable .ok kcf
  | skipped {fuel : ℕ} {header : Record} {e : KcfError} {k : KCF} : kcf.SkipRecord e k →
      Stepped kcf (.skipRecord fuel header) e k
  | started {e : KcfError} {k : KCF} : kcf.startReading = .ok (e, k) →
      Stepped kcf .startReading e k

theorem stepped_of_step {c : ReaderCall} (h : readerStep c kcf = .ok (a, k)) :
    kcf.Stepped c a.error k := by
  cases c with
  | readRecord R =>
    cases R with
    | none =>
      cases h
      exact .nullRecord
    | some R => exact .record (readRecord_of_step h)
  | readAddedData bufferSize =>
    cases bufferSize with
    | none =>
      cases h
      exact .nullBuffer
    | some bufferSize => exact .added (readAddedData_of_step h)
  | isAddedDataAvailable =>
    cases h
    exact .asked
  | skipRecord fuel header => exact .skipped (skipRecord_of_step h)
  | startReading =>
    obtain ⟨⟨e, k'⟩, hx, hr⟩ := Exec.map_ok h
    cases hr
    exact .started hx

end KCF

/-- What a client sees of a call: what it returns, the parser's state and the checksums of the
added data. -/
structure Observation where
  result : ReaderResult
  parserState : ParserState
  addedDataCRC32 : UInt32
  actualAddedDataCRC32 : UInt32

/-- What a client sees of an answer and the handle it leaves. -/
def observe : ReaderResult × KCF → Observation × KCF
  | (result, kcf) =>
    (⟨result, kcf.parserState, kcf.addedDataCRC32, kcf.actualAddedDataCRC32⟩, kcf)

/-- Make a call and look at the handle. -/
def observedStep (c : ReaderCall) (kcf : KCF) : Exec (Observation × KCF) :=
  (readerStep c kcf).map observe

end Kcf
