import SolidityInterface.Proofs.Run.Steady
import Mathlib.Data.Finset.Card

/-
  Loading records. Any number of calls ask for the records of paths, in any spelling; looks
  at the disk end when they do, and find what is there at that moment; a call is
  answered once something is known about its path. `Session.Loads` is any row of such
  events, in any order.

  1. A path is known just if a look at it has ended, and what is known is what that look
     found (`Loads.settled`).
  2. A look is under way only for a path that is not known, so no path is looked at twice
     (`Loads.nodup_looked`).
  3. The cache holds the paths that were asked for, each once, and the report one warning
     for each look that found nothing.
-/

namespace SolidityInterface

/-- What happens while records are loaded. -/
inductive LoadEvent where
  /-- A call asks for the record of a path. -/
  | call (path : Path) (importer : String)
  /-- A look at a path ends. -/
  | look (key : Path) (found : Sighting)
  /-- A call for a path is answered. -/
  | answer (path : Path) (outcome : Except Failure Record)

namespace LoadEvent

/-- The file that an event asks for, seen from a directory. -/
def requested? (cwd : Path) : LoadEvent → Option Path
  | call path _ => cwd.resolve? path
  | look _ _ | answer _ _ => none

/-- The path that an event has looked at. -/
def looked? : LoadEvent → Option Path
  | look key _ => some key
  | call _ _ | answer _ _ => none

/-- The path at which an event has found nothing. -/
def missed? : LoadEvent → Option Path
  | look key .absent => some key
  | look _ _ | call _ _ | answer _ _ => none

end LoadEvent

namespace Session

variable {o : Options} {l : List LoadEvent} {s : Session} {k key path : Path} {found : Sighting}

/-- Asks for the record of a path. A path that cannot be named is not asked for. -/
def call (s : Session) (path : Path) (importer : String) : Session :=
  match s.options.cwd.resolve? path with
  | none => s
  | some key => { s with cache := s.cache.request key importer }

/-- The rows of events that can happen while records are loaded, and what they lead to. -/
inductive Loads (o : Options) : List LoadEvent → Session → Prop
  | nil : Loads o [] { options := o }
  | call {l : List LoadEvent} {s : Session} (path : Path) (importer : String) :
      Loads o l s → Loads o (l ++ [.call path importer]) (s.call path importer)
  | look {l : List LoadEvent} {s : Session} (key : Path) (found : Sighting) :
      Loads o l s → key ∈ s.cache.pending → Loads o (l ++ [.look key found]) (s.look key found)
  | answer {l : List LoadEvent} {s : Session} (path : Path) (importer : String)
      {out : Except Failure Record} :
      Loads o l s → .call path importer ∈ l → s.known? path = some out →
      Loads o (l ++ [.answer path out]) s

/-- The files that were asked for. -/
def requested (o : Options) (l : List LoadEvent) : List Path :=
  l.filterMap (LoadEvent.requested? o.cwd)

/-- The paths that were looked at. -/
def looked (l : List LoadEvent) : List Path := l.filterMap LoadEvent.looked?

/-- The paths at which nothing was found. -/
def missed (l : List LoadEvent) : List Path := l.filterMap LoadEvent.missed?

theorem mem_looked : k ∈ looked l ↔ ∃ found, .look k found ∈ l := by
  simp only [looked, List.mem_filterMap]
  constructor
  · rintro ⟨e, he, hk⟩
    cases e with
    | look key found =>
      obtain rfl := Option.some.inj hk
      exact ⟨found, he⟩
    | call | answer => simp [LoadEvent.looked?] at hk
  · rintro ⟨found, h⟩
    exact ⟨_, h, rfl⟩

/-- What was missed was looked at. -/
theorem missed_sublist (l : List LoadEvent) : (missed l).Sublist (looked l) := by
  induction l with
  | nil => exact List.Sublist.slnil
  | cons e l ih =>
    cases e with
    | call | answer => exact ih
    | look key found =>
      cases found with
      | absent => exact ih.cons_cons key
      | text | undecodable | refused => exact ih.cons key

/-! ## The end of a look -/

/-- A look is on its way just if its path was asked for and is not known. -/
theorem reading_of_pending {c : Cache} (hc : (Table.keys c).Nodup) (h : k ∈ c.pending) :
    ∃ importer, Table.get? k c = some (.reading importer) := by
  obtain ⟨⟨k', load⟩, hmem, hk⟩ := List.mem_filterMap.mp h
  cases load with
  | settled out => simp at hk
  | reading importer =>
    obtain rfl := Option.some.inj hk
    exact ⟨importer, Table.get?_of_mem hc hmem⟩

theorem look_of_reading {importer : String}
    (h : Table.get? key s.cache = some (.reading importer)) :
    s.look key found = { s with
      cache := Table.put key (.settled (Cache.interpret s.options.license key found)) s.cache
      report := s.report ++ Cache.noteOn key importer found } := by
  simp [look, Cache.settle, h]

theorem outcome?_of_reading {c : Cache} {importer : String}
    (h : Table.get? k c = some (.reading importer)) : c.outcome? k = none := by
  simp [Cache.outcome?, h]

/-! ## What a row of events has left -/

/-- What holds of a session after a row of events. -/
structure LoadedBy (o : Options) (l : List LoadEvent) (s : Session) : Prop where
  options : s.options = o
  single : (Table.keys s.cache).Nodup
  cached : ∀ k, k ∈ Table.keys s.cache ↔ k ∈ requested o l
  nodup_looked : (looked l).Nodup
  settled : ∀ k out, s.cache.outcome? k = some out ↔
    ∃ found, .look k found ∈ l ∧ out = Cache.interpret o.license k found
  answered : ∀ path out, .answer path out ∈ l → s.known? path = some out
  warned : (s.report.filter (·.code = "W001")).length = (missed l).length

/-- What is known about a path stays known if it does for the file that it leads to. -/
theorem known?_kept {t : Session} {out : Except Failure Record} (h : s.known? path = some out)
    (options : t.options = s.options)
    (kept : ∀ k out, s.cache.outcome? k = some out → t.cache.outcome? k = some out) :
    t.known? path = some out := by
  unfold known? at h ⊢
  rw [options]
  split at h
  · exact h
  · exact kept _ _ h

theorem LoadedBy.call (h : LoadedBy o l s) (path : Path) (importer : String) :
    LoadedBy o (l ++ [.call path importer]) (s.call path importer) := by
  have hlooked : looked (l ++ [.call path importer]) = looked l := by
    simp [looked, LoadEvent.looked?]
  have hmissed : missed (l ++ [.call path importer]) = missed l := by
    simp [missed, LoadEvent.missed?]
  have hoptions := h.options
  unfold Session.call
  cases hres : s.options.cwd.resolve? path with
  | none =>
    have hrequested : requested o (l ++ [.call path importer]) = requested o l := by
      simp [requested, LoadEvent.requested?, ← hoptions, hres]
    constructor
    case options => exact hoptions
    case single => exact h.single
    case cached => rw [hrequested]; exact h.cached
    case nodup_looked => rw [hlooked]; exact h.nodup_looked
    case settled => simpa using h.settled
    case answered => simpa using h.answered
    case warned => rw [hmissed]; exact h.warned
  | some key =>
    have hrequested : requested o (l ++ [.call path importer]) = requested o l ++ [key] := by
      simp [requested, LoadEvent.requested?, ← hoptions, hres]
    constructor
    case options => exact hoptions
    case single => exact nodup_request h.single
    case cached =>
      intro k
      rw [hrequested, List.mem_append, List.mem_singleton, ← h.cached, Table.mem_keys_iff,
        Table.mem_keys_iff]
      constructor
      · exact has_request_cases
      · rintro (hk | rfl)
        · exact has_request hk
        · exact has_request_self ..
    case nodup_looked => rw [hlooked]; exact h.nodup_looked
    case settled =>
      intro k out
      rw [outcome?_request]
      simpa using h.settled k out
    case answered =>
      intro path' out hmem
      have hold : .answer path' out ∈ l := by simpa using hmem
      refine known?_kept (h.answered path' out hold) rfl ?_
      intro k out hk
      rw [outcome?_request]
      exact hk
    case warned => rw [hmissed]; exact h.warned

theorem LoadedBy.look (h : LoadedBy o l s) (hkey : key ∈ s.cache.pending) (found : Sighting) :
    LoadedBy o (l ++ [.look key found]) (s.look key found) := by
  obtain ⟨importer, hreading⟩ := reading_of_pending h.single hkey
  have hunknown := outcome?_of_reading hreading
  have hkeys : Table.keys (Table.put key
      (.settled (Cache.interpret s.options.license key found)) s.cache) = Table.keys s.cache :=
    Table.keys_put_of_has (Table.has_of_get? hreading)
  have hrequested : requested o (l ++ [.look key found]) = requested o l := by
    simp [requested, LoadEvent.requested?]
  -- The path was not looked at before, or it would be known.
  have hnew : ∀ found', .look key found' ∉ l := by
    intro found' hmem
    have hknown := (h.settled key _).mpr ⟨found', hmem, rfl⟩
    rw [hunknown] at hknown
    simp at hknown
  rw [look_of_reading hreading]
  constructor
  case options => exact h.options
  case single => rw [hkeys]; exact h.single
  case cached => rw [hkeys, hrequested]; exact h.cached
  case nodup_looked =>
    have hlooked : looked (l ++ [.look key found]) = looked l ++ [key] := by
      simp [looked, LoadEvent.looked?]
    rw [hlooked, List.nodup_append]
    refine ⟨h.nodup_looked, by simp, ?_⟩
    intro k hk k' hk' he
    obtain ⟨found', hmem⟩ := mem_looked.mp hk
    obtain rfl := List.mem_singleton.mp hk'
    exact hnew found' (he ▸ hmem)
  case settled =>
    intro k out
    by_cases hk : key = k
    · subst hk
      simp [Cache.outcome?, hnew, h.options, eq_comm]
    · have hold := h.settled k out
      simp only [Cache.outcome?] at hold ⊢
      rw [Table.get?_put_of_ne hk, hold]
      simp [Ne.symm hk]
  case answered =>
    intro path out hmem
    have hold : .answer path out ∈ l := by simpa using hmem
    refine known?_kept (h.answered path out hold) rfl ?_
    intro k out hk
    have hne : key ≠ k := by
      rintro rfl
      rw [hunknown] at hk
      simp at hk
    simp only [Cache.outcome?] at hk ⊢
    rw [Table.get?_put_of_ne hne]
    exact hk
  case warned =>
    have hmissed : missed (l ++ [.look key found])
        = missed l ++ (LoadEvent.missed? (.look key found)).toList := by
      simp [missed, List.filterMap_cons]
      cases LoadEvent.missed? (.look key found) <;> rfl
    rw [hmissed, List.filter_append, List.length_append, List.length_append, h.warned]
    cases found <;> rfl

theorem LoadedBy.answer (h : LoadedBy o l s) {out : Except Failure Record}
    (hout : s.known? path = some out) : LoadedBy o (l ++ [.answer path out]) s := by
  have hrequested : requested o (l ++ [.answer path out]) = requested o l := by
    simp [requested, LoadEvent.requested?]
  have hlooked : looked (l ++ [.answer path out]) = looked l := by
    simp [looked, LoadEvent.looked?]
  have hmissed : missed (l ++ [.answer path out]) = missed l := by
    simp [missed, LoadEvent.missed?]
  constructor
  case options => exact h.options
  case single => exact h.single
  case cached => rw [hrequested]; exact h.cached
  case nodup_looked => rw [hlooked]; exact h.nodup_looked
  case settled => simpa using h.settled
  case warned => rw [hmissed]; exact h.warned
  case answered =>
    intro path' out' hmem
    rcases List.mem_append.mp hmem with hmem | hmem
    · exact h.answered path' out' hmem
    · obtain ⟨rfl, rfl⟩ := LoadEvent.answer.inj (List.mem_singleton.mp hmem)
      exact hout

theorem loadedBy_nil (o : Options) : LoadedBy o [] { options := o } where
  options := rfl
  single := List.nodup_nil
  cached := by simp [Table.keys, requested]
  nodup_looked := List.nodup_nil
  settled := by simp [Cache.outcome?, Table.get?]
  answered := by simp
  warned := rfl

theorem Loads.loadedBy (h : Loads o l s) : LoadedBy o l s := by
  induction h with
  | nil => exact loadedBy_nil o
  | call path importer _ ih => exact ih.call path importer
  | look key found _ hkey ih => exact ih.look hkey found
  | answer path importer _ _ hout ih => exact ih.answer hout

/-! ## Numbers -/

theorem LoadedBy.length_cache (h : LoadedBy o l s) :
    s.cache.length = (requested o l).toFinset.card := by
  have hset : (Table.keys s.cache).toFinset = (requested o l).toFinset := by
    ext k
    rw [List.mem_toFinset, List.mem_toFinset, h.cached]
  calc s.cache.length = (Table.keys s.cache).length := (List.length_map ..).symm
    _ = (Table.keys s.cache).toFinset.card := (List.toFinset_card_of_nodup h.single).symm
    _ = (requested o l).toFinset.card := by rw [hset]

theorem LoadedBy.requested_of_looked (h : LoadedBy o l s) (hk : k ∈ looked l) :
    k ∈ requested o l := by
  obtain ⟨found, hmem⟩ := mem_looked.mp hk
  have hknown := (h.settled k _).mpr ⟨found, hmem, rfl⟩
  exact (h.cached k).mp (Table.mem_keys_iff.mpr (Cache.has_of_outcome? hknown))

theorem LoadedBy.length_warnings (h : LoadedBy o l s) :
    (s.report.filter (·.code = "W001")).length
      = ((requested o l).toFinset.filter (· ∈ missed l)).card := by
  have hset : (requested o l).toFinset.filter (· ∈ missed l) = (missed l).toFinset := by
    ext k
    rw [Finset.mem_filter, List.mem_toFinset, List.mem_toFinset]
    constructor
    · exact fun hk => hk.2
    · intro hk
      exact ⟨h.requested_of_looked ((missed_sublist l).subset hk), hk⟩
  calc (s.report.filter (·.code = "W001")).length = (missed l).length := h.warned
    _ = (missed l).toFinset.card :=
      (List.toFinset_card_of_nodup (h.nodup_looked.sublist (missed_sublist l))).symm
    _ = ((requested o l).toFinset.filter (· ∈ missed l)).card := by rw [hset]

/-- A file that was asked for is known, or a look at it is on its way. -/
theorem LoadedBy.known_or_pending (h : LoadedBy o l s) (hk : k ∈ requested o l) :
    (∃ out, s.cache.outcome? k = some out) ∨ k ∈ s.cache.pending := by
  obtain ⟨load, hload⟩ := Table.has_iff.mp (Table.mem_keys_iff.mp ((h.cached k).mpr hk))
  cases load with
  | settled out => exact .inl ⟨out, by simp [Cache.outcome?, hload]⟩
  | reading importer =>
    refine .inr (List.mem_filterMap.mpr ⟨(k, .reading importer), Table.mem_of_get? hload, rfl⟩)

/-! ## Records are loaded once -/

/-- Whatever calls are made, in whatever order looks end and whatever they find: no file is
looked at twice, and none that was not asked for; calls for one file, in any spelling,
are answered alike, by what the one look at it found; no call waits in vain; the cache
has an entry for each file that was asked for, and never fewer than before; and there is
one warning for each of these files at which nothing was found. -/
theorem records_are_loaded_once (o : Options) (l : List LoadEvent) (s : Session)
    (h : Loads o l s) :
    ((looked l).Nodup ∧ ∀ k ∈ looked l, k ∈ requested o l) ∧
    (∀ key path path' out out', o.cwd.resolve? path = some key → o.cwd.resolve? path' = some key →
      .answer path out ∈ l → .answer path' out' ∈ l → out = out' ∧
        ∃ found, .look key found ∈ l ∧ out = Cache.interpret o.license key found) ∧
    (∀ k ∈ requested o l, (∃ out, s.cache.outcome? k = some out) ∨ k ∈ s.cache.pending) ∧
    s.cache.length = (requested o l).toFinset.card ∧
    (∀ l' s', l' <+: l → Loads o l' s' → s'.cache.length ≤ s.cache.length) ∧
    (s.report.filter (·.code = "W001")).length
      = ((requested o l).toFinset.filter (· ∈ missed l)).card := by
  have hl := h.loadedBy
  have known : ∀ {key path out}, o.cwd.resolve? path = some key → .answer path out ∈ l →
      s.cache.outcome? key = some out := by
    intro key path out hkey hmem
    have hout := hl.answered path out hmem
    simpa [known?, hl.options, hkey] using hout
  refine ⟨⟨hl.nodup_looked, fun k => hl.requested_of_looked⟩, ?_,
    fun k => hl.known_or_pending, hl.length_cache, ?_, hl.length_warnings⟩
  · intro key path path' out out' hkey hkey' hout hout'
    have hknown := known hkey hout
    exact ⟨Option.some.inj (hknown.symm.trans (known hkey' hout')), (hl.settled key out).mp hknown⟩
  · intro l' s' hpre h'
    rw [h'.loadedBy.length_cache, hl.length_cache]
    apply Finset.card_le_card
    intro k hk
    rw [List.mem_toFinset] at hk ⊢
    exact (hpre.sublist.filterMap _).subset hk

/-- Two spellings of a file that cannot be read, and a file that is not there. -/
def spellings : List LoadEvent :=
  [.call ⟨.relative, ["A.sol"]⟩ "", .call ⟨.slash, ["x", "..", "A.sol"]⟩ "",
    .look ⟨.slash, ["A.sol"]⟩ .undecodable, .call ⟨.slash, ["B.sol"]⟩ "/A.sol",
    .answer ⟨.slash, ["x", "..", "A.sol"]⟩ (.error (.undecodable ⟨.slash, ["A.sol"]⟩)),
    .look ⟨.slash, ["B.sol"]⟩ .absent, .call ⟨.slash, ["A.sol"]⟩ "",
    .answer ⟨.relative, ["A.sol"]⟩ (.error (.undecodable ⟨.slash, ["A.sol"]⟩))]

/-- Both spellings get the failure of the one look, the cache has two entries, and there is
one warning. -/
theorem spellings_share_one_look :
    ∃ s, Loads World.Pair.options spellings s ∧ (looked spellings).Nodup ∧
      s.cache.length = 2 ∧ (s.report.filter (·.code = "W001")).length = 1 := by
  have h₀ : Loads World.Pair.options [] _ := .nil
  have h₁ := (h₀.call ⟨.relative, ["A.sol"]⟩ "").call ⟨.slash, ["x", "..", "A.sol"]⟩ ""
  have h₂ := h₁.look ⟨.slash, ["A.sol"]⟩ .undecodable (by decide +kernel)
  have h₃ := h₂.call ⟨.slash, ["B.sol"]⟩ "/A.sol"
  have h₄ := h₃.answer ⟨.slash, ["x", "..", "A.sol"]⟩ "" (by simp) rfl
  have h₅ := h₄.look ⟨.slash, ["B.sol"]⟩ .absent (by decide +kernel)
  have h₆ := h₅.call ⟨.slash, ["A.sol"]⟩ ""
  have h₇ := h₆.answer ⟨.relative, ["A.sol"]⟩ "" (by simp) rfl
  obtain ⟨⟨hnodup, -⟩, -, -, hlength, -, hwarnings⟩ := records_are_loaded_once _ _ _ h₇
  refine ⟨_, h₇, hnodup, hlength.trans ?_, hwarnings.trans ?_⟩
  · decide +kernel
  · decide +kernel

end Session

end SolidityInterface
