/-
Flow rules, and the controller that keeps them.

* `Match`: the match of a rule, by the names of its fields;
* `getFullMatchFields`: the match of the match fields of a policy chain;
* `Rule`: a rule of a policy chain;
* `covers`: a rule is covered by a match if it has all of its fields;
* `Post`: a request to the controller, which adds a rule or deletes all that are covered;
* `Controller`: the rules, and the requests of a command with their outcomes;
* `str_injective`, `covers_vlanMatch`: the numbers in a match are told apart;
* `mem_urlopens`, `mem_foldl_apply`, `mem_foldl_apply_of_deletes`, `mem_foldl_apply_adds`: which
  rules there are after some requests.
-/
import FtThesis.Tsa.Requests
import FtThesis.Tsa.Network

namespace FtThesis.Tsa

/-! ### Matches -/

/-- `str`, for a number. -/
def str (n : ℕ) : Str := Nat.toDigits 10 n

lemma str_injective : Function.Injective str := fun m n h => by
  rw [← Nat.ofDigitChars_ten_toDigits (n := m), ← Nat.ofDigitChars_ten_toDigits (n := n)]
  exact congrArg (fun t => Nat.ofDigitChars 10 t 0) h

/-- The dictionary with the fields that a match asks for. -/
abbrev Match := List Field

/-- `match[name] = value`. -/
def Match.set (m : Match) (name value : Str) : Match :=
  (name, value) :: m.filter fun field => field.1 ≠ name

/-- The names of the fields that the rules use themselves. -/
def dlVlan : Str := "dl_vlan".toList

def inPortName : Str := "in_port".toList

/-- No name is set twice. -/
lemma nodup_set {m : Match} (h : (m.map Prod.fst).Nodup) (name value : Str) :
    ((m.set name value).map Prod.fst).Nodup := by
  rw [Match.set, List.map_cons, List.nodup_cons]
  refine ⟨fun hmem => ?_, h.sublist (List.filter_sublist.map Prod.fst)⟩
  obtain ⟨field, hfield, hname⟩ := List.mem_map.mp hmem
  simpa [hname] using (List.mem_filter.mp hfield).2

/-- `getFullMatchFields`. -/
def getFullMatchFields (matchFields : List Field) : Match :=
  matchFields.foldl (fun m field =>
    let m := m.set field.1 field.2
    if field.1 = "tp_dst".toList ∨ field.1 = "tp_src".toList then
      (m.set "nw_proto".toList "6".toList).set "dl_type".toList "2048".toList
    else if field.1 = "nw_src".toList ∨ field.1 = "nw_dst".toList then
      m.set "dl_type".toList "2048".toList
    else m) []

lemma nodup_getFullMatchFields (matchFields : List Field) :
    ((getFullMatchFields matchFields).map Prod.fst).Nodup := by
  rw [getFullMatchFields]
  refine List.foldlRecOn (motive := fun m : Match => (m.map Prod.fst).Nodup) matchFields _
    List.nodup_nil fun m hm field _ => ?_
  simp only
  split_ifs
  · exact nodup_set (nodup_set (nodup_set hm _ _) _ _) _ _
  · exact nodup_set (nodup_set hm _ _) _ _
  · exact nodup_set hm _ _

/-- A match with the port by which a frame enters, if there is one. -/
def Match.withInPort (m : Match) (inPort : Option Port) : Match :=
  match inPort with
  | some inPort => m.set inPortName (str inPort)
  | none => m

/-- The match for a VLAN id alone. -/
def vlanMatch (vlanId : ℕ) : Match := [(dlVlan, str vlanId)]

/-- Whether a match asks for nothing that the other one does not ask for. -/
def covers (m m' : Match) : Bool := m.all fun field => m'.lookup field.1 = some field.2

/-- A match for a VLAN id covers those that ask for it. -/
lemma covers_vlanMatch (vlanId : ℕ) (m : Match) :
    covers (vlanMatch vlanId) m = true ↔ m.lookup dlVlan = some (str vlanId) := by
  simp [covers, vlanMatch]

/-- A match without a repeated name asks for what it asks for. -/
lemma covers_self {m : Match} (h : (m.map Prod.fst).Nodup) : covers m m = true := by
  rw [covers, List.all_eq_true]
  intro field hfield
  obtain ⟨before, after, rfl⟩ := List.append_of_mem hfield
  rw [decide_eq_true_eq, List.lookup_eq_some_iff]
  refine ⟨before, after, rfl, fun field' hfield' => ?_⟩
  rw [List.map_append, List.nodup_append] at h
  have hne := h.2.2 field'.1 (List.mem_map_of_mem hfield') field.1 (by simp)
  simpa using hne.symm

/-! ### Rules -/

/-- The kinds of rules: the VLAN id is set, is matched, or is matched and stripped. -/
inductive RuleKind
  | push
  | forward
  | pop
deriving DecidableEq

/-- A rule of the chain with the given VLAN id.  All of them have one priority. -/
structure Rule where
  dpid : Dpid
  kind : RuleKind
  vlanId : ℕ
  fields : Match
  outPort : Port
deriving DecidableEq

/-- The match of a rule of the given kind.  The port is not optional where the VLAN id is
stripped. -/
def ruleMatch (kind : RuleKind) (matchFields : List Field) (vlanId : ℕ) (inPort : Option Port) :
    Match :=
  match kind with
  | .push => (getFullMatchFields matchFields).withInPort inPort
  | .forward => (vlanMatch vlanId).withInPort inPort
  | .pop => Match.set [(inPortName, (inPort.map str).getD "None".toList)] dlVlan (str vlanId)

/-! ### The controller -/

/-- A request to the controller (`/stats/flowentry/add`, `/stats/flowentry/delete`). -/
inductive Post
  | add (rule : Rule)
  | delete (dpid : Dpid) (fields : Match)
deriving DecidableEq

/-- The rules after a request that is accepted: a new rule replaces one with the same match, and
all rules of the switch that are covered are deleted. -/
def Post.apply (rules : List Rule) : Post → List Rule
  | .add rule =>
      rules.filter (fun r => ¬ (r.dpid = rule.dpid ∧ covers r.fields rule.fields ∧
        covers rule.fields r.fields)) ++ [rule]
  | .delete dpid fields => rules.filter fun r => ¬ (r.dpid = dpid ∧ covers fields r.fields)

/-- The controller: its rules, whether it accepts the requests of a command, by their number, and
the requests so far. -/
structure Controller where
  rules : List Rule
  accepts : ℕ → Bool
  posts : List (Post × Bool)

/-- `urlopen`: whether the request is accepted, and the controller after it. -/
def Controller.urlopen (c : Controller) (post : Post) : Bool × Controller :=
  let accepted := c.accepts c.posts.length
  (accepted,
    { c with
      rules := if accepted then post.apply c.rules else c.rules
      posts := c.posts ++ [(post, accepted)] })

/-- The controller after some requests. -/
def Controller.urlopens (c : Controller) (posts : List Post) : Controller :=
  posts.foldl (fun c p => (c.urlopen p).2) c

section

variable {c : Controller}

lemma urlopens_append (posts posts' : List Post) :
    c.urlopens (posts ++ posts') = (c.urlopens posts).urlopens posts' :=
  List.foldl_append ..

@[simp] lemma urlopens_accepts (posts : List Post) : (c.urlopens posts).accepts = c.accepts := by
  induction posts generalizing c with
  | nil => rfl
  | cons p posts ih => exact ih

/-- All requests are noted. -/
lemma urlopens_posts (posts : List Post) :
    (c.urlopens posts).posts.map Prod.fst = c.posts.map Prod.fst ++ posts := by
  induction posts generalizing c with
  | nil => simp [Controller.urlopens]
  | cons p posts ih =>
      have h := ih (c := (c.urlopen p).2)
      rw [Controller.urlopens, List.foldl_cons, ← Controller.urlopens, h]
      simp [Controller.urlopen]

@[simp] lemma urlopens_posts_length (posts : List Post) :
    (c.urlopens posts).posts.length = c.posts.length + posts.length := by
  have hlength := congrArg List.length (urlopens_posts (c := c) posts)
  simpa using hlength

/-- The next requests are accepted, as many as the given number. -/
def Controller.Accepting (c : Controller) (n : ℕ) : Prop :=
  ∀ i, i < n → c.accepts (c.posts.length + i) = true

lemma Controller.Accepting.mono {m n : ℕ} (h : c.Accepting n) (hmn : m ≤ n) : c.Accepting m :=
  fun i hi => h i (hi.trans_le hmn)

/-- What is accepted after some requests. -/
lemma Controller.Accepting.after {n : ℕ} {posts : List Post}
    (h : c.Accepting (posts.length + n)) : (c.urlopens posts).Accepting n := by
  intro i hi
  rw [urlopens_accepts, urlopens_posts_length, Nat.add_assoc]
  exact h _ (by omega)

/-- Requests that are accepted are carried out one after the other. -/
lemma urlopens_of_accepting {posts : List Post} (h : c.Accepting posts.length) :
    (c.urlopens posts).rules = posts.foldl Post.apply c.rules ∧
      (c.urlopens posts).posts = c.posts ++ posts.map (·, true) := by
  induction posts generalizing c with
  | nil => exact ⟨rfl, (List.append_nil _).symm⟩
  | cons p posts ih =>
      have hp : c.accepts c.posts.length = true := h 0 (by simp)
      have hnext : (c.urlopen p).2 = ⟨p.apply c.rules, c.accepts, c.posts ++ [(p, true)]⟩ := by
        simp [Controller.urlopen, hp]
      have hposts : (c.urlopen p).2.Accepting posts.length := by
        rw [List.length_cons, Nat.add_comm] at h
        exact @Controller.Accepting.after c posts.length [p] h
      obtain ⟨hrules, hall⟩ := ih hposts
      rw [Controller.urlopens, List.foldl_cons, ← Controller.urlopens, hrules, hall, hnext]
      simp

/-- A rule comes from the rules before, or it was added. -/
lemma mem_urlopens {posts : List Post} {r : Rule} (h : r ∈ (c.urlopens posts).rules) :
    r ∈ c.rules ∨ .add r ∈ posts := by
  induction posts generalizing c with
  | nil => exact .inl h
  | cons p posts ih =>
      rcases ih (c := (c.urlopen p).2) h with h | h
      · have hmem : r ∈ c.rules ∨ r ∈ p.apply c.rules := by
          simp only [Controller.urlopen] at h
          split_ifs at h
          · exact .inr h
          · exact .inl h
        rcases hmem with h | h
        · exact .inl h
        · cases p with
          | add rule =>
              rcases List.mem_append.mp h with h | h
              · exact .inl (List.mem_of_mem_filter h)
              · obtain rfl := List.mem_singleton.mp h
                exact .inr List.mem_cons_self
          | delete dpid fields => exact .inl (List.mem_of_mem_filter h)
      · exact .inr (List.mem_cons_of_mem _ h)

/-- A rule that is added replaces one at the same switch that asks for the same. -/
def SameMatch (r q : Rule) : Prop :=
  r.dpid = q.dpid ∧ covers r.fields q.fields = true ∧ covers q.fields r.fields = true

/-- A request replaces or deletes a rule, if it is accepted. -/
def Post.Reaches (r : Rule) : Post → Prop
  | .add q => SameMatch r q
  | .delete dpid fields => r.dpid = dpid ∧ covers fields r.fields = true

instance (r : Rule) (p : Post) : Decidable (p.Reaches r) :=
  match p with
  | .add q => inferInstanceAs (Decidable (r.dpid = q.dpid ∧ covers r.fields q.fields = true ∧
      covers q.fields r.fields = true))
  | .delete dpid fields =>
      inferInstanceAs (Decidable (r.dpid = dpid ∧ covers fields r.fields = true))

lemma mem_apply {rules : List Rule} {p : Post} {r : Rule} :
    r ∈ p.apply rules ↔ r ∈ rules ∧ ¬ p.Reaches r ∨ p = .add r := by
  cases p with
  | add q =>
      simp only [Post.apply, List.mem_append, List.mem_filter, decide_eq_true_eq,
        List.mem_singleton, Post.Reaches, SameMatch, Post.add.injEq]
      exact or_congr Iff.rfl eq_comm
  | delete dpid fields =>
      simp only [Post.apply, List.mem_filter, decide_eq_true_eq, Post.Reaches, reduceCtorEq,
        or_false]

/-- The rules that there are after some requests: those that none of them reaches, and those that
are added and not reached by a later one. -/
lemma mem_foldl_apply {posts : List Post} {rules : List Rule} {r : Rule} :
    r ∈ posts.foldl Post.apply rules ↔
      (r ∈ rules ∧ ∀ p ∈ posts, ¬ p.Reaches r) ∨
        ∃ before after, posts = before ++ .add r :: after ∧ ∀ p ∈ after, ¬ p.Reaches r := by
  induction posts generalizing rules with
  | nil => simp
  | cons p posts ih =>
      rw [List.foldl_cons, ih, mem_apply, List.forall_mem_cons]
      constructor
      · rintro (⟨⟨hr, hne⟩ | rfl, hall⟩ | ⟨before, after, rfl, hall⟩)
        · exact .inl ⟨hr, hne, hall⟩
        · exact .inr ⟨[], posts, rfl, hall⟩
        · exact .inr ⟨p :: before, after, rfl, hall⟩
      · rintro (⟨hr, hne, hall⟩ | ⟨before, after, heq, hall⟩)
        · exact .inl ⟨.inl ⟨hr, hne⟩, hall⟩
        · cases before with
          | nil =>
              obtain ⟨rfl, rfl⟩ := List.cons.inj heq
              exact .inl ⟨.inr rfl, hall⟩
          | cons p' before =>
              obtain ⟨rfl, rfl⟩ := List.cons.inj heq
              exact .inr ⟨before, after, rfl, hall⟩

/-- A rule that is not added is there if it was there and no request reaches it. -/
lemma mem_foldl_apply_of_not_add {posts : List Post} {rules : List Rule} {r : Rule}
    (h : .add r ∉ posts) :
    r ∈ posts.foldl Post.apply rules ↔ r ∈ rules ∧ ∀ p ∈ posts, ¬ p.Reaches r := by
  rw [mem_foldl_apply, or_iff_left]
  rintro ⟨before, after, rfl, -⟩
  exact h (by simp)

/-- Deletions leave the rules that none of them covers. -/
lemma mem_foldl_apply_of_deletes {posts : List Post}
    (hposts : ∀ p ∈ posts, ∃ dpid fields, p = .delete dpid fields) (rules : List Rule) {r : Rule} :
    r ∈ posts.foldl Post.apply rules ↔
      r ∈ rules ∧ ∀ dpid fields, .delete dpid fields ∈ posts →
        ¬ (r.dpid = dpid ∧ covers fields r.fields = true) := by
  have hadd : .add r ∉ posts := by
    intro hmem
    obtain ⟨_, _, heq⟩ := hposts _ hmem
    cases heq
  rw [mem_foldl_apply_of_not_add hadd]
  refine and_congr_right fun _ => ⟨fun h dpid fields hmem => h _ hmem, fun h p hp => ?_⟩
  obtain ⟨dpid, fields, rfl⟩ := hposts p hp
  exact h dpid fields hp

/-- The rules that there are after some are added: those that none of them replaces, and those of
them that are not replaced by a later one. -/
lemma mem_foldl_apply_adds {own rules : List Rule} {r : Rule} :
    r ∈ (own.map Post.add).foldl Post.apply rules ↔
      (r ∈ rules ∧ ∀ q ∈ own, ¬ SameMatch r q) ∨
        ∃ before after, own = before ++ r :: after ∧ ∀ q ∈ after, ¬ SameMatch r q := by
  rw [mem_foldl_apply, List.forall_mem_map]
  refine or_congr Iff.rfl ⟨?_, ?_⟩
  · rintro ⟨before, after, heq, hall⟩
    obtain ⟨before', own', rfl, -, hown'⟩ := List.map_eq_append_iff.mp heq
    obtain ⟨r', after', rfl, hr', hafter'⟩ := List.map_eq_cons_iff.mp hown'
    obtain rfl : r' = r := by simpa using hr'
    rw [← hafter', List.forall_mem_map] at hall
    exact ⟨before', after', rfl, hall⟩
  · rintro ⟨before, after, rfl, hall⟩
    exact ⟨before.map .add, after.map .add, by simp, List.forall_mem_map.mpr hall⟩

end

end FtThesis.Tsa
