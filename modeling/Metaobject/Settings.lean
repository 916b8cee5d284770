import Metaobject.Json.Record
import Metaobject.Limits

/-!
# Settings

Limits on classes and archives, and what happens after a unit that cannot be loaded. Settings that a
text does not give keep their standard values; fields that are not known are skipped.
-/

namespace Metaobject

structure Settings where
  limits : Limits
  maxArchiveBytes : Nat
  stopOnError : Bool
deriving DecidableEq, Repr

namespace Limits

structure Draft where
  maxSlots : Option Nat
  maxPrecedenceDepth : Option Nat

def Draft.complete (d : Draft) : Limits :=
  ⟨d.maxSlots.getD standard.maxSlots, d.maxPrecedenceDepth.getD standard.maxPrecedenceDepth⟩

open Json.Reader in
def record : RecordType Draft where
  name := "LimitConfig"
  fields := [
    Field.of "max_slots" false Draft.maxSlots (fun d n => { d with maxSlots := some n }) natural,
    Field.of "max_precedence_depth" false Draft.maxPrecedenceDepth
      (fun d n => { d with maxPrecedenceDepth := some n }) natural]
  draft := ⟨none, none⟩
  skipsUnknown := true

def reader : Json.Reader Limits := do
  return (← Json.Reader.record record).complete

end Limits

namespace Settings

def standard : Settings := ⟨Limits.standard, 16 * 1024 * 1024, true⟩

structure CacheDraft where
  maxArchiveBytes : Option Nat

open Json.Reader in
def cacheRecord : RecordType CacheDraft where
  name := "CacheConfig"
  fields := [
    Field.of "max_archive_bytes" false CacheDraft.maxArchiveBytes
      (fun _ n => ⟨some n⟩) natural]
  draft := ⟨none⟩
  skipsUnknown := true

def cacheReader : Json.Reader Nat := do
  return (← Json.Reader.record cacheRecord).maxArchiveBytes.getD standard.maxArchiveBytes

structure Draft where
  limits : Option Limits
  cache : Option Nat

open Json.Reader in
def record : RecordType Draft where
  name := "MopConfig"
  fields := [
    Field.of "limits" false Draft.limits (fun d l => { d with limits := some l }) Limits.reader,
    Field.of "cache" false Draft.cache (fun d n => { d with cache := some n }) cacheReader]
  draft := ⟨none, none⟩
  skipsUnknown := true

def ofJson (text : String) : Except Json.Fault Settings := do
  let d ← (Json.Reader.record record).decode text
  return { standard with
    limits := d.limits.getD standard.limits
    maxArchiveBytes := d.cache.getD standard.maxArchiveBytes }

end Settings

end Metaobject
