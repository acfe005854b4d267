import Mathlib.Data.List.Basic

set_option autoImplicit false

namespace Framing

/-- What one look at the front of a buffer finds. -/
inductive Found (Item Error Symbol : Type) where
  | more
  | fail (error : Error)
  | item (value : Item) (rest : List Symbol)
  deriving DecidableEq

def Found.extend {Item Error Symbol : Type} (later : List Symbol) :
    Found Item Error Symbol → Found Item Error Symbol
  | .more => .more
  | .fail error => .fail error
  | .item value rest => .item value (rest ++ later)

structure Scanner (Item Error Symbol : Type) where
  scan : List Symbol → Found Item Error Symbol
  consumes : ∀ buffer value rest, scan buffer = .item value rest → rest.length < buffer.length
  stable : ∀ buffer later, scan buffer ≠ .more → scan (buffer ++ later) = (scan buffer).extend later

variable {Item Error Symbol : Type}

structure Drained (Item Error Symbol : Type) where
  items : List Item
  kept : List Symbol
  failed : Option Error
  deriving DecidableEq

namespace Scanner

variable (scanner : Scanner Item Error Symbol)

def drainLoop : Nat → List Symbol → Drained Item Error Symbol
  | 0, buffer => ⟨[], buffer, none⟩
  | fuel + 1, buffer =>
    match scanner.scan buffer with
    | .more => ⟨[], buffer, none⟩
    | .fail error => ⟨[], buffer, some error⟩
    | .item value rest =>
      let later := drainLoop fuel rest
      { later with items := value :: later.items }

def drain (buffer : List Symbol) : Drained Item Error Symbol :=
  scanner.drainLoop (buffer.length + 1) buffer

theorem drainLoop_enough (fuel : Nat) (buffer : List Symbol) (enough : buffer.length < fuel) :
    scanner.drainLoop fuel buffer = scanner.drain buffer := by
  unfold drain
  have any (first second : Nat) (symbols : List Symbol) (firstEnough : symbols.length < first)
      (secondEnough : symbols.length < second) :
      scanner.drainLoop first symbols = scanner.drainLoop second symbols := by
    induction first generalizing second symbols with
    | zero => omega
    | succ first ih =>
      cases second with
      | zero => omega
      | succ second =>
        simp only [drainLoop]
        cases found : scanner.scan symbols with
        | more => rfl
        | fail error => rfl
        | item value rest =>
          have shorter := scanner.consumes _ _ _ found
          simp only [ih second rest (by omega) (by omega)]
  exact any _ _ buffer enough (by omega)

theorem drain_more (buffer : List Symbol) (found : scanner.scan buffer = .more) :
    scanner.drain buffer = ⟨[], buffer, none⟩ := by
  simp [drain, drainLoop, found]

theorem drain_fail (buffer : List Symbol) (error : Error) (found : scanner.scan buffer = .fail error) :
    scanner.drain buffer = ⟨[], buffer, some error⟩ := by
  simp [drain, drainLoop, found]

theorem drain_item (buffer : List Symbol) (value : Item) (rest : List Symbol)
    (found : scanner.scan buffer = .item value rest) :
    scanner.drain buffer =
      { scanner.drain rest with items := value :: (scanner.drain rest).items } := by
  have shorter := scanner.consumes _ _ _ found
  conv_lhs => unfold drain
  simp only [drainLoop, found, scanner.drainLoop_enough _ rest shorter]

theorem scan_kept (buffer : List Symbol) (sound : (scanner.drain buffer).failed = none) :
    scanner.scan (scanner.drain buffer).kept = .more := by
  induction length : buffer.length using Nat.strongRecOn generalizing buffer with
  | ind n ih =>
    cases found : scanner.scan buffer with
    | more => simpa [scanner.drain_more _ found] using found
    | fail error => simp [scanner.drain_fail _ _ found] at sound
    | item value rest =>
      have shorter := scanner.consumes _ _ _ found
      rw [scanner.drain_item _ _ _ found] at sound ⊢
      exact ih rest.length (by omega) rest sound rfl

theorem drain_append (buffer later : List Symbol) :
    scanner.drain (buffer ++ later) =
      match (scanner.drain buffer).failed with
      | some error => ⟨(scanner.drain buffer).items, (scanner.drain buffer).kept ++ later, some error⟩
      | none =>
        { scanner.drain ((scanner.drain buffer).kept ++ later) with
          items := (scanner.drain buffer).items ++
            (scanner.drain ((scanner.drain buffer).kept ++ later)).items } := by
  induction length : buffer.length using Nat.strongRecOn generalizing buffer with
  | ind n ih =>
    cases found : scanner.scan buffer with
    | more => simp [scanner.drain_more _ found]
    | fail error =>
      have extended : scanner.scan (buffer ++ later) = .fail error := by
        rw [scanner.stable _ _ (by simp [found]), found]
        rfl
      simp [scanner.drain_fail _ _ found, scanner.drain_fail _ _ extended]
    | item value rest =>
      have extended : scanner.scan (buffer ++ later) = .item value (rest ++ later) := by
        rw [scanner.stable _ _ (by simp [found]), found]
        rfl
      have shorter := scanner.consumes _ _ _ found
      rw [scanner.drain_item _ _ _ found, scanner.drain_item _ _ _ extended,
        ih rest.length (by omega) rest rfl]
      cases (scanner.drain rest).failed <;> rfl

theorem drain_all (good : Item → Prop)
    (finds : ∀ buffer value rest, scanner.scan buffer = .item value rest → good value)
    (buffer : List Symbol) : ∀ value ∈ (scanner.drain buffer).items, good value := by
  induction length : buffer.length using Nat.strongRecOn generalizing buffer with
  | ind n ih =>
    cases found : scanner.scan buffer with
    | more => simp [scanner.drain_more _ found]
    | fail error => simp [scanner.drain_fail _ _ found]
    | item value rest =>
      have shorter := scanner.consumes _ _ _ found
      rw [scanner.drain_item _ _ _ found]
      intro other member
      rcases List.mem_cons.mp member with rfl | later
      · exact finds _ _ _ found
      · exact ih rest.length (by omega) rest rfl other later

def feedAll : List Symbol → List (List Symbol) → Drained Item Error Symbol
  | kept, [] => ⟨[], kept, none⟩
  | kept, chunk :: rest =>
    let now := scanner.drain (kept ++ chunk)
    match now.failed with
    | some _ => now
    | none =>
      let later := feedAll now.kept rest
      { later with items := now.items ++ later.items }

theorem feedAll_eq_drain (kept : List Symbol) (chunks : List (List Symbol))
    (settled : scanner.scan kept = .more)
    (sound : (scanner.drain (kept ++ chunks.flatten)).failed = none) :
    scanner.feedAll kept chunks = scanner.drain (kept ++ chunks.flatten) := by
  induction chunks generalizing kept with
  | nil => simp [feedAll, scanner.drain_more _ settled]
  | cons chunk rest ih =>
    have whole := scanner.drain_append (kept ++ chunk) rest.flatten
    rw [List.flatten_cons, ← List.append_assoc] at sound ⊢
    rw [whole] at sound ⊢
    simp only [feedAll]
    cases failed : (scanner.drain (kept ++ chunk)).failed with
    | some error => simp [failed] at sound
    | none =>
      simp only [failed] at sound
      simp only [ih _ (scanner.scan_kept _ failed) sound]

section Encoded

variable {Source : Type} (encode : Source → List Symbol) (decode : Source → Item)

theorem drain_encoded
    (finds : ∀ source later, scanner.scan (encode source ++ later) = .item (decode source) later)
    (empty : scanner.scan [] = .more) (sources : List Source) :
    scanner.drain (sources.map encode).flatten = ⟨sources.map decode, [], none⟩ := by
  induction sources with
  | nil => simpa using scanner.drain_more [] empty
  | cons source rest ih =>
    rw [List.map_cons, List.flatten_cons, scanner.drain_item _ _ _ (finds source _), ih]
    rfl

theorem feedAll_encoded
    (finds : ∀ source later, scanner.scan (encode source ++ later) = .item (decode source) later)
    (empty : scanner.scan [] = .more) (sources : List Source) (chunks : List (List Symbol))
    (cut : chunks.flatten = (sources.map encode).flatten) :
    scanner.feedAll [] chunks = ⟨sources.map decode, [], none⟩ := by
  have drained := scanner.drain_encoded encode decode finds empty sources
  rw [scanner.feedAll_eq_drain [] chunks empty (by simp [cut, drained])]
  simpa [cut] using drained

theorem drain_encoded_part
    (finds : ∀ source later, scanner.scan (encode source ++ later) = .item (decode source) later)
    (empty : scanner.scan [] = .more) (sources : List Source) (buffer : List Symbol)
    (part : buffer <+: (sources.map encode).flatten) :
    ∃ done todo tail, sources = done ++ todo ∧ buffer = (done.map encode).flatten ++ tail ∧
      scanner.drain buffer = ⟨done.map decode, tail, none⟩ ∧
      todo.head?.elim (tail = []) fun upcoming => tail <+: encode upcoming ∧ tail ≠ encode upcoming := by
  induction sources generalizing buffer with
  | nil =>
    obtain rfl : buffer = [] := by simpa using part
    exact ⟨[], [], [], rfl, rfl, scanner.drain_more [] empty, rfl⟩
  | cons source rest ih =>
    rw [List.map_cons, List.flatten_cons] at part
    by_cases whole : encode source <+: buffer
    · obtain ⟨behind, rfl⟩ := whole
      obtain ⟨done, todo, tail, split, cut, drained, next⟩ :=
        ih behind ((List.prefix_append_right_inj _).mp part)
      refine ⟨source :: done, todo, tail, by simp [split], by simp [cut], ?_, next⟩
      rw [scanner.drain_item _ _ _ (finds source behind), drained]
      rfl
    · -- The buffer ends inside this source, so its scan may not have settled on anything.
      obtain ⟨missing, rest_⟩ | inside := List.prefix_or_prefix_of_prefix part
        (List.prefix_append (encode source) _)
      · have proper : missing ≠ [] := by
          rintro rfl
          exact whole (by simp [← rest_])
        have settled : scanner.scan buffer = .more := by
          by_contra settled
          have extended := scanner.stable buffer missing settled
          rw [rest_, ← List.append_nil (encode source), finds source []] at extended
          cases found : scanner.scan buffer with
          | more => exact settled found
          | fail error => simp [found, Found.extend] at extended
          | item value behind => simp [found, Found.extend, proper] at extended
        refine ⟨[], source :: rest, buffer, rfl, rfl, scanner.drain_more buffer settled, ?_⟩
        exact ⟨⟨missing, rest_⟩, fun same => whole (by simp [same])⟩
      · exact absurd inside whole

end Encoded

end Scanner

end Framing
