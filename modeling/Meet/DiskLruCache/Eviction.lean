import Meet.DiskLruCache.Upkeep

/-! Which entries `trimToSize` removes, and when it goes on for ever. -/
namespace Meet.DiskLruCache.Journal
open LinkedMap

/-- The entries that may be removed, the eldest first. -/
def idle (entries : Entries) : Entries := entries.filter fun e => e.2.currentEditor.isNone

/-- The cache is small enough without its eldest idle entries. -/
def Fits (cfg : Config) (c : Cache) (evicted : Nat) : Prop :=
  c.size - sizeOf ((idle c.lruEntries).take evicted) ≤ cfg.maxSize

end Meet.DiskLruCache.Journal
