import MidiToIp.Orchestrator.Http

set_option autoImplicit false

namespace MidiToIp.Orchestrator

open Octets

variable (python : Python)

structure Spaced (line method target tail rest : Str) : Prop where
  line_eq : line = method ++ ' ' :: (target ++ (tail ++ rest))
  method_ : method ≠ [] ∧ ∀ c ∈ method, python.isSpace c = false
  target_ : target ≠ [] ∧ ∀ c ∈ target, python.isSpace c = false
  tail_ : ' ' ∉ tail ∧ ∀ c later, tail = c :: later → python.isSpace c = true
  rest_ : ∀ c later, rest = c :: later → c = ' '

theorem isSpace_space : python.isSpace ' ' = true := by
  rw [python.space_ascii ' ' (by decide)]
  decide

theorem splitOnP_space (c : Char) (more : Str) (space : python.isSpace c = true) :
    (c :: more).splitOnP python.isSpace = [] :: more.splitOnP python.isSpace := by
  have nothing : ∀ d ∈ ([] : Str), python.isSpace d = false := by simp
  simpa using List.splitOnP_append_cons_of_forall_mem nothing c space more

theorem words_append (word more : Str) (some_ : word ≠ []) (solid : ∀ c ∈ word, python.isSpace c = false)
    (ends : ∀ c later, more = c :: later → python.isSpace c = true) :
    python.words (word ++ more) = word :: python.words more := by
  cases more with
  | nil =>
    rw [List.append_nil, Text.words, List.splitOnP_eq_singleton solid]
    simp [Text.words, some_]
  | cons c later =>
    have space := ends c later rfl
    rw [Text.words, List.splitOnP_append_cons_of_forall_mem solid c space, Text.words,
      splitOnP_space python c later space]
    simp [some_]

theorem words_space (c : Char) (more : Str) (space : python.isSpace c = true) :
    python.words (c :: more) = python.words more := by
  simp [Text.words, splitOnP_space python c more space]

section Spaced

variable {python} {line method target tail rest : Str} (spaced : Spaced python line method target tail rest)

include spaced

theorem Spaced.words : ∃ more, python.words line = method :: target :: more := by
  obtain ⟨rfl, ⟨some_, solid⟩, ⟨filled, plain⟩, ⟨-, blank⟩, ends⟩ := spaced
  have first : ∀ c later, ' ' :: (target ++ (tail ++ rest)) = c :: later → python.isSpace c = true := by
    intro c later same
    obtain ⟨rfl, -⟩ := List.cons.inj same
    exact isSpace_space python
  have second : ∀ c later, tail ++ rest = c :: later → python.isSpace c = true := by
    intro c later same
    cases tail with
    | cons d more =>
      obtain ⟨rfl, -⟩ := List.cons.inj same
      exact blank _ _ rfl
    | nil =>
      rw [ends c later same]
      exact isSpace_space python
  refine ⟨python.words (tail ++ rest), ?_⟩
  rw [words_append python method _ some_ solid first, words_space python ' ' _ (isSpace_space python),
    words_append python target _ filled plain second]

theorem Spaced.splitOn : ∃ more, line.splitOn ' ' = method :: (target ++ tail) :: more := by
  obtain ⟨rfl, ⟨-, solid⟩, ⟨-, plain⟩, ⟨noSpace, -⟩, ends⟩ := spaced
  have absent : ∀ word : Str, (∀ c ∈ word, python.isSpace c = false) → ' ' ∉ word := by
    intro word solid member
    have notSpace := solid ' ' member
    rw [isSpace_space] at notSpace
    exact Bool.noConfusion notSpace
  have whole : ' ' ∉ target ++ tail := by
    rw [List.mem_append]
    exact not_or.mpr ⟨absent target plain, noSpace⟩
  rw [List.splitOn_append_cons_self_of_not_mem (absent method solid), ← List.append_assoc]
  cases rest with
  | nil => exact ⟨[], by rw [List.append_nil, List.splitOn_eq_singleton whole]⟩
  | cons c later =>
    rw [ends c later rfl, List.splitOn_append_cons_self_of_not_mem whole]
    exact ⟨_, rfl⟩

end Spaced

section Readings

variable {python} {line method target tail rest : Str} {requestLine : Bytes}
  (spaced : Spaced python (latin1 requestLine) method target tail rest)

include spaced

theorem Spaced.httpMethod : httpMethod python requestLine = python.upperCase method := by
  obtain ⟨more, words⟩ := spaced.words
  rw [Orchestrator.httpMethod, words]

theorem Spaced.httpPath : httpPath python requestLine = target := by
  obtain ⟨more, words⟩ := spaced.words
  rw [Orchestrator.httpPath, words]

theorem Spaced.wsMethod : wsMethod python requestLine = python.upperCase method := by
  obtain ⟨more, parts⟩ := spaced.splitOn
  rw [Orchestrator.wsMethod, parts]
  rfl

theorem Spaced.wsPath : wsPath requestLine = target ++ tail := by
  obtain ⟨more, parts⟩ := spaced.splitOn
  rw [Orchestrator.wsPath, parts]
  rfl

end Readings

def Known (method path : Str) : Prop :=
  (method = "GET".toList ∧ pathOnly path ∈
      ["/status.json".toList, "/rooms".toList, "/lobby".toList, "/".toList]) ∨
    (method = "POST".toList ∧ pathOnly path = "/rooms".toList) ∨
    (method = "DELETE".toList ∧ "/rooms/".toList <+: pathOnly path)

theorem route_known (method path : Str) : route python method path ≠ .notFound ↔ Known method path := by
  unfold route Known
  split_ifs <;> simp_all

theorem route_unknown {method path : Str} (unknown : ¬ Known method path) :
    route python method path = .notFound := by
  by_contra served
  exact unknown ((route_known python method path).mp served)

def solid (s : Str) : Prop := ∀ c ∈ s, python.isSpace c = false

theorem solid_ascii (s : Str) (printable : s.all (fun c => 33 ≤ c.toNat ∧ c.toNat < 127) = true) :
    solid python s := by
  intro c member
  have range := of_decide_eq_true (List.all_eq_true.mp printable c member)
  rw [python.space_ascii c (by omega), decide_eq_false_iff_not]
  omega

theorem paths_solid : ∀ text ∈ ["/status.json".toList, "/rooms".toList, "/lobby".toList, "/".toList],
    solid python text := by
  intro text member
  apply solid_ascii
  have all : ∀ text ∈ ["/status.json".toList, "/rooms".toList, "/lobby".toList, "/".toList],
      text.all (fun c => 33 ≤ c.toNat ∧ c.toNat < 127) = true := by decide
  exact all text member

theorem upperCase_solid (s : Str) (upper : solid python (python.upperCase s)) : solid python s := by
  intro c member
  by_contra space
  rw [Bool.not_eq_false] at space
  have kept : c ∈ python.upperCase s :=
    List.mem_flatMap.mpr ⟨c, member, by rw [python.upper_space c space]; exact List.mem_singleton_self c⟩
  rw [upper c kept] at space
  exact Bool.noConfusion space

theorem Known.method {method path : Str} (known : Known method path) :
    method = "GET".toList ∨ method = "POST".toList ∨ method = "DELETE".toList := by
  rcases known with ⟨get, -⟩ | ⟨post, -⟩ | ⟨delete, -⟩
  · exact .inl get
  · exact .inr (.inl post)
  · exact .inr (.inr delete)

theorem Known.path {method path : Str} (known : Known method path) :
    ∃ later, path = '/' :: later := by
  have first : ∃ later, pathOnly path = '/' :: later := by
    rcases known with ⟨-, one⟩ | ⟨-, rooms⟩ | ⟨-, later, rooms⟩
    · simp only [List.mem_cons, List.not_mem_nil, or_false] at one
      rcases one with same | same | same | same <;> exact ⟨_, same⟩
    · exact ⟨_, rooms⟩
    · exact ⟨_, rooms.symm⟩
  obtain ⟨later, same⟩ := first
  cases path with
  | nil => simp [pathOnly] at same
  | cons c more =>
    by_cases query : c = '?'
    · simp [pathOnly, query] at same
    · simp [pathOnly, query] at same
      exact ⟨more, by rw [same.1]⟩

theorem pathOnly_append_of_mem (target tail : Str) (query : '?' ∈ target) :
    pathOnly (target ++ tail) = pathOnly target := by
  rw [pathOnly, List.takeWhile_append, if_neg, pathOnly]
  intro whole
  have all := (List.takeWhile_prefix fun c => decide (c ≠ '?')).eq_of_length whole
  have kept := List.mem_takeWhile_imp (all.symm ▸ query : '?' ∈ target.takeWhile (· ≠ '?'))
  simp at kept

theorem pathOnly_append_of_not_mem (target tail : Str) (plain : '?' ∉ target) :
    pathOnly (target ++ tail) = target ++ pathOnly tail := by
  have all : ∀ c ∈ target, decide (c ≠ '?') = true := fun c member => by
    simpa using fun same : c = '?' => plain (same ▸ member)
  rw [pathOnly, List.takeWhile_append_of_pos all, pathOnly]

theorem pathOnly_self (target : Str) (plain : '?' ∉ target) : pathOnly target = target := by
  simpa [pathOnly] using pathOnly_append_of_not_mem target [] plain

theorem prefix_cut (text target tail : Str) (printable : solid python text)
    (blank : ∀ c later, tail = c :: later → python.isSpace c = true)
    (known : text <+: target ++ tail) : text <+: target := by
  rcases List.prefix_or_prefix_of_prefix known (List.prefix_append target tail) with short | ⟨more, rfl⟩
  · exact short
  · cases more with
    | nil => simp
    | cons c later =>
      obtain ⟨behind, tail_eq⟩ := List.prefix_append_right_inj target |>.mp known
      have space := blank c _ tail_eq.symm
      rw [printable c (by simp)] at space
      exact Bool.noConfusion space

theorem pathOnly_prefix_cut (text target tail : Str) (printable : solid python text)
    (blank : ∀ c later, tail = c :: later → python.isSpace c = true)
    (known : text <+: pathOnly (target ++ tail)) : text <+: pathOnly target := by
  by_cases query : '?' ∈ target
  · rwa [pathOnly_append_of_mem target tail query] at known
  · rw [pathOnly_append_of_not_mem target tail query] at known
    rw [pathOnly_self target query]
    refine prefix_cut python text target (pathOnly tail) printable (fun c later same => ?_) known
    cases tail with
    | nil => simp [pathOnly] at same
    | cons d more =>
      by_cases question : d = '?'
      · simp [pathOnly, question] at same
      · rw [pathOnly, List.takeWhile_cons_of_pos (by simpa using question)] at same
        obtain ⟨rfl, -⟩ := List.cons.inj same
        exact blank d more rfl

theorem pathOnly_eq_cut (text target tail : Str) (printable : solid python text)
    (blank : ∀ c later, tail = c :: later → python.isSpace c = true)
    (known : pathOnly (target ++ tail) = text) : pathOnly target = text := by
  have shorter := pathOnly_prefix_cut python text target tail printable blank (known ▸ List.prefix_rfl)
  have longer : pathOnly target <+: text := by
    rw [← known]
    by_cases query : '?' ∈ target
    · rw [pathOnly_append_of_mem target tail query]
    · rw [pathOnly_append_of_not_mem target tail query, pathOnly_self target query]
      exact List.prefix_append _ _
  exact longer.eq_of_length_le shorter.length_le

theorem Known.cut {method target tail : Str} (known : Known method (target ++ tail))
    (blank : ∀ c later, tail = c :: later → python.isSpace c = true) : Known method target := by
  rcases known with ⟨get, one⟩ | ⟨post, rooms⟩ | ⟨delete, rooms⟩
  · refine .inl ⟨get, ?_⟩
    rwa [pathOnly_eq_cut python _ target tail (paths_solid python _ one) blank rfl]
  · exact .inr (.inl ⟨post, pathOnly_eq_cut python _ target tail (paths_solid python _ (by simp)) blank rooms⟩)
  · refine .inr (.inr ⟨delete, pathOnly_prefix_cut python _ target tail ?_ blank rooms⟩)
    exact solid_ascii python _ (by decide)

theorem splitOn_first (s : Str) :
    ∃ first rest, s = first ++ rest ∧ ' ' ∉ first ∧ (∀ c later, rest = c :: later → c = ' ') ∧
      (s.splitOn ' ').headD [] = first := by
  by_cases space : ' ' ∈ s
  · obtain ⟨first, later, rfl, absent⟩ := List.eq_append_cons_of_mem space
    refine ⟨first, ' ' :: later, rfl, absent, fun c _ same => (List.cons.inj same).1.symm, ?_⟩
    rw [List.splitOn_append_cons_self_of_not_mem absent]
    rfl
  · exact ⟨s, [], (List.append_nil s).symm, space, by simp, by rw [List.splitOn_eq_singleton space]; rfl⟩

theorem known_spaced (requestLine : Bytes) (known : Known (wsMethod python requestLine) (wsPath requestLine)) :
    ∃ method target tail rest, Spaced python (latin1 requestLine) method target tail rest := by
  obtain ⟨later, slash⟩ := known.path
  have upper := known.method
  unfold wsMethod at upper
  unfold wsPath at slash
  generalize latin1 requestLine = line at upper slash ⊢
  by_cases space : ' ' ∈ line
  · obtain ⟨method, behind, rfl, absent⟩ := List.eq_append_cons_of_mem space
    obtain ⟨path, rest, rfl, noSpace, ends, first⟩ := splitOn_first behind
    rw [List.splitOn_append_cons_self_of_not_mem absent] at upper slash
    have path_eq : path = '/' :: later := by
      rw [← first, ← slash]
      cases (path ++ rest).splitOn ' ' <;> rfl
    have capital : solid python (python.upperCase method) := by
      apply solid_ascii
      have all : ∀ text ∈ ["GET".toList, "POST".toList, "DELETE".toList],
          text.all (fun c => 33 ≤ c.toNat ∧ c.toNat < 127) = true := by decide
      exact all _ (by simpa using upper)
    have slashSolid : python.isSpace '/' = false := solid_ascii python ['/'] (by decide) '/' (by simp)
    refine ⟨method, path.takeWhile (!python.isSpace ·), path.dropWhile (!python.isSpace ·), rest, ?_⟩
    constructor
    · rw [← List.append_assoc, List.takeWhile_append_dropWhile]
    · refine ⟨?_, upperCase_solid python method capital⟩
      rintro rfl
      simp [Text.upperCase] at upper
    · refine ⟨by simp [path_eq, slashSolid], fun c member => ?_⟩
      simpa using List.mem_takeWhile_imp member
    · refine ⟨fun member => noSpace ((List.dropWhile_sublist _).subset member), fun c more same => ?_⟩
      have some_ : path.dropWhile (!python.isSpace ·) ≠ [] := by simp [same]
      have stops := List.head_dropWhile_not (!python.isSpace ·) some_
      simpa [same] using stops
    · exact ends
  · rw [List.splitOn_eq_singleton space] at slash
    simp at slash

end MidiToIp.Orchestrator
