import Gherkin.Proofs.Document.Source
import Gherkin.Proofs.Document.Location
import Gherkin.Proofs.Tree.Built

/-!
# Lines of a document that a kind cannot stand on

The lines around a fragment are those that an element of its kind needs anyway: what is in a
feature stands below the header of the feature, what is in a test below that of the test, and a
table or doc string below a step. A tag stands above the header of what it belongs to. So no part
of a kind that is found in any document has a line as near to either end as that.
-/

namespace Gherkin

namespace Fragment

variable {dialect : Dialect} {kind : Kind} {above below : List Text}

/-- The number of lines above a fragment of a kind. -/
def linesAbove : Kind → Nat
  | .rule | .background | .scenario | .outline => 1
  | .example | .step => 2
  | .table | .docString | .row => 3
  | _ => 0

/-- The number of lines below a fragment of a kind. -/
def linesBelow : Kind → Nat
  | .tag => 1
  | _ => 0

theorem length_surroundings (around : surroundings dialect kind = .ok (above, below)) :
    above.length = linesAbove kind ∧ below.length = linesBelow kind := by
  cases kind <;> cases around <;> exact ⟨rfl, rfl⟩

end Fragment

open Fragment

namespace Branch

variable {branch : Branch Origin} {after last first final : Nat}

/-- All lines of a branch are behind one line and up to another one. The parts of a branch are
behind as many lines as there are above fragments of their kinds, and do not come up to as many
lines as there are below. -/
inductive Spans : (after last : Nat) → Branch Origin → Prop where
  | node {after last : Nat} {origin : Origin} {element : Element}
      {children : List (Branch Origin)}
      (here : ∀ line ∈ origin.line, after < line ∧ line ≤ last)
      (below : ∀ child ∈ children,
        Spans (max after (linesAbove child.kind)) (last - linesBelow child.kind) child) :
      Spans after last (.node origin element children)

theorem Spans.mono (spans : branch.Spans after last) (earlier : first ≤ after)
    (later : last ≤ final) : branch.Spans first final := by
  induction spans generalizing first final with
  | node here _ ih =>
    refine .node (fun line given => ?_) fun child member => ih child member (by omega) (by omega)
    have bounds := here line given
    omega

/-- What is one line below an element is a part of it, if fragments of its kind need no more. -/
theorem Spans.part (spans : branch.Spans (after + 1) last)
    (above : linesAbove branch.kind ≤ after + 1) (below : linesBelow branch.kind = 0) :
    branch.Spans (max after (linesAbove branch.kind)) (last - linesBelow branch.kind) := by
  rw [below]
  exact spans.mono (max_le (Nat.le_succ _) above) le_rfl

/-- A tag with a line below it is a part of an element. -/
theorem Spans.tag {tag : Document.Tag} (spans : tag.branch.Spans after (last - 1)) :
    tag.branch.Spans (max after (linesAbove tag.branch.kind))
      (last - linesBelow tag.branch.kind) :=
  spans.mono (max_le le_rfl (Nat.zero_le _)) le_rfl

/-- A branch at a place on a line in between, with children in between. -/
theorem Spans.at {place : Document.Place} {element : Element} {children : List (Branch Origin)}
    (here : after < place.line ∧ place.line ≤ last)
    (below : ∀ child ∈ children,
      child.Spans (max after (linesAbove child.kind)) (last - linesBelow child.kind)) :
    (Branch.node place.origin element children).Spans after last := by
  refine .node (fun line given => ?_) below
  cases given
  exact here

theorem Spans.of_mem_nodes (spans : branch.Spans after last) {id : NodeId}
    {parent : Option NodeId} {node : Node} (member : node ∈ branch.nodes id parent) :
    ∀ line ∈ node.line, after < line ∧ line ≤ last := by
  induction spans generalizing id parent with
  | node here _ ih =>
    rw [nodes] at member
    rcases List.mem_cons.mp member with rfl | below
    · exact here
    · obtain ⟨child, inside, start, found⟩ := Tree.exists_of_mem_childNodes below
      intro line given
      have bounds := ih child inside found line given
      omega

/-- A branch keeps clear of the lines around a fragment of its kind. -/
def KeepsClear (last : Nat) (branch : Branch Origin) : Prop :=
  ∃ after final, linesAbove branch.kind ≤ after ∧ final ≤ last - linesBelow branch.kind ∧
    branch.Spans after final

theorem KeepsClear.children (clear : branch.KeepsClear last) :
    ∀ child ∈ branch.children, child.KeepsClear last := by
  obtain ⟨after, final, _, within, spans⟩ := clear
  obtain ⟨_, below⟩ := spans
  exact fun child member => ⟨_, _, Nat.le_max_right .., by omega, below child member⟩

/-- What is found of a kind keeps clear of the lines around a fragment of this kind. -/
theorem Spans.outermost {kind : Kind} (spans : branch.Spans 0 last)
    (top : linesAbove branch.kind = 0 ∧ linesBelow branch.kind = 0) :
    ∀ inner ∈ branch.outermost kind, inner.Spans (linesAbove kind) (last - linesBelow kind) := by
  have here : branch.KeepsClear last := ⟨0, last, by omega, by omega, spans⟩
  have each : ∀ inner ∈ branch.outermost kind, inner.KeepsClear last :=
    forall_outermost (fun _ clear => clear.children) here
  intro inner inside
  obtain ⟨after, final, behind, within, spans⟩ := each inner inside
  rw [kind_of_mem_outermost inside] at behind within
  exact spans.mono behind within

end Branch

/-! ## Lines in order -/

namespace Line

variable {after last : Nat} {line : Line} {lines rest : List Line}

/-- Numbered lines in order, all of them behind one line and up to another one. -/
structure Between (after last : Nat) (lines : List Line) : Prop where
  ordered : lines.Pairwise (·.number < ·.number)
  within : ∀ line ∈ lines, after < line.number ∧ line.number ≤ last

theorem Between.suffix (between : Between after last lines) (left : rest <:+ lines) :
    Between after last rest :=
  ⟨between.ordered.sublist left.sublist,
    fun line member => between.within line (left.subset member)⟩

/-- What is below a line is one line further behind. -/
theorem Between.below (between : Between after last (line :: lines)) :
    Between (after + 1) last lines := by
  obtain ⟨first, later⟩ := List.pairwise_cons.mp between.ordered
  have here := between.within line List.mem_cons_self
  refine ⟨later, fun other member => ?_⟩
  have behind := first other member
  have bounds := between.within other (List.mem_cons_of_mem _ member)
  omega

theorem Between.place (between : Between after last (line :: lines)) :
    after < line.place.line ∧ line.place.line ≤ last :=
  between.within line List.mem_cons_self

theorem between_readAll (dialect : Dialect) (number : Nat) (raws : List Text) :
    Between number (number + raws.length) (readAll dialect (number + 1) raws) := by
  induction raws generalizing number with
  | nil => exact ⟨.nil, nofun⟩
  | cons raw raws ih =>
    have behind := ih (number + 1)
    rw [readAll, List.length_cons]
    refine ⟨List.pairwise_cons.mpr ⟨fun line member => ?_, behind.ordered⟩,
      List.forall_mem_cons.mpr ⟨?_, fun line member => ?_⟩⟩
    · exact (behind.within line member).1
    · change number < number + 1 ∧ number + 1 ≤ _
      omega
    · have bounds := behind.within line member
      omega

end Line

/-! ## What is read from lines -/

namespace Grammar

open Document Line

variable {release : Release} {after last : Nat} {lines rest : List Line}

/-- Tags are on lines above the next construct. -/
theorem Tags.between {found : List Tag} (read : Tags lines found rest)
    (between : Between after last lines) :
    ∀ tag ∈ found, after < tag.place.line ∧ ∀ line ∈ rest, tag.place.line < line.number := by
  induction read with
  | done | stop => exact List.forall_mem_nil _
  | skip _ _ ih => exact ih (between.suffix (List.suffix_cons ..))
  | line _ spelled later ih =>
    obtain ⟨_, rfl⟩ := lineTags_eq_ok_iff.mp spelled
    refine List.forall_mem_append.mpr ⟨?_, ih (between.suffix (List.suffix_cons ..))⟩
    refine List.forall_mem_map.mpr fun word _ => ⟨between.place.1, fun line member => ?_⟩
    exact (List.pairwise_cons.mp between.ordered).1 line (later.suffix.subset member)

/-- Tags in front of a construct leave room for it. -/
theorem Tags.spans {found : List Tag} {line : Line} {below : List Line}
    (read : Tags lines found (line :: below)) (between : Between after last lines) :
    ∀ tag ∈ found, tag.branch.Spans after (last - 1) := by
  intro tag member
  obtain ⟨behind, above⟩ := read.between between tag member
  have next := above line List.mem_cons_self
  have bounds := (between.suffix read.suffix).place
  refine .at ⟨behind, ?_⟩ (List.forall_mem_nil _)
  change tag.place.line < line.place.line at next
  omega

theorem Rows.spans {width : Option Nat} {found : List Row} (read : Rows width lines found rest)
    (between : Between after last lines) : ∀ row ∈ found, row.branch.Spans after last := by
  induction read with
  | done | stop => exact List.forall_mem_nil _
  | comment _ _ ih => exact ih (between.suffix (List.suffix_cons ..))
  | row _ _ _ ih =>
    exact List.forall_mem_cons.mpr ⟨.at between.place (List.forall_mem_nil _),
      ih (between.suffix (List.suffix_cons ..))⟩

theorem Argument.spans {found : Option Document.Argument} (read : Argument lines found rest)
    (between : Between after last lines) (deep : 3 ≤ after) :
    ∀ argument ∈ found, argument.branch.Spans after last := by
  cases read with
  | none => exact nofun
  | table skipped _ rows =>
    rintro _ ⟨⟩
    have here := between.suffix (suffix_of_skipped skipped)
    refine .at here.place (List.forall_mem_map.mpr fun row member => ?_)
    exact (rows.spans here row member).mono (max_le le_rfl deep) le_rfl
  | docString skipped _ _ =>
    rintro _ ⟨⟩
    exact .at (between.suffix (suffix_of_skipped skipped)).place (List.forall_mem_nil _)

theorem Steps.spans {found : List Step} (read : Steps lines found rest)
    (between : Between after last lines) (deep : 2 ≤ after) :
    ∀ step ∈ found, step.branch.Spans after last := by
  induction read with
  | done => exact List.forall_mem_nil _
  | step skipped _ argument _ ih =>
    have here := between.suffix (suffix_of_skipped skipped)
    have below := here.suffix (List.suffix_cons ..)
    refine List.forall_mem_cons.mpr ⟨.at here.place (List.forall_mem_map.mpr ?_),
      ih (below.suffix argument.suffix)⟩
    intro given member
    have spans := argument.spans here.below (by omega) given (Option.mem_toList.mp member)
    cases given <;> exact spans.part (Nat.succ_le_succ deep) rfl

theorem Blocks.spans {allowed : Bool} {found : List Examples}
    (read : Blocks allowed lines found rest) (between : Between after last lines)
    (deep : 2 ≤ after) : ∀ block ∈ found, block.branch.Spans after last := by
  induction read with
  | done => exact List.forall_mem_nil _
  | block _ tags _ rows _ ih =>
    have here := between.suffix tags.suffix
    have rowed := rows.spans (here.below.suffix ((List.dropWhile_suffix _).trans
      (header_suffix ..)))
    refine List.forall_mem_cons.mpr ⟨.at here.place (List.forall_mem_append.mpr
      ⟨List.forall_mem_map.mpr fun tag member => ?_,
        List.forall_mem_map.mpr fun row member => ?_⟩), ih ?_⟩
    · exact (tags.spans between tag member).tag
    · exact (rowed row member).part (Nat.succ_le_succ deep) rfl
    · exact here.suffix (rows.suffix.trans ((List.dropWhile_suffix _).trans
        ((header_suffix ..).trans (List.suffix_cons ..))))

theorem Test.spans {found : List Tag} {line : Line} {construct : Construct} {keyword name : Text}
    {test : Scenario} (read : Test release found line construct keyword name lines test rest)
    (between : Between after last (line :: lines)) (deep : 1 ≤ after)
    (tags : ∀ tag ∈ found, tag.branch.Spans after (last - 1)) :
    test.branch.Spans after last := by
  cases read with
  | intro steps blocks =>
    have stepped := steps.spans (between.below.suffix (header_suffix ..)) (Nat.succ_le_succ deep)
    have blocked := blocks.spans (between.below.suffix (steps.suffix.trans (header_suffix ..)))
      (Nat.succ_le_succ deep)
    have tagged : ∀ tag ∈ found, _ := fun tag member => (tags tag member).tag
    have stepped : ∀ step ∈ _, _ := fun step member =>
      (stepped step member).part (Nat.succ_le_succ deep) rfl
    unfold Scenario.branch
    split
    · refine .at between.place (List.forall_mem_append.mpr ⟨List.forall_mem_append.mpr
        ⟨List.forall_mem_map.mpr tagged, List.forall_mem_map.mpr stepped⟩,
          List.forall_mem_map.mpr fun block member => ?_⟩)
      exact (blocked block member).part (Nat.succ_le_succ deep) rfl
    · exact .at between.place (List.forall_mem_append.mpr
        ⟨List.forall_mem_map.mpr tagged, List.forall_mem_map.mpr stepped⟩)

theorem Tests.spans {found : List Scenario} (read : Tests release lines found rest)
    (between : Between after last lines) (deep : 1 ≤ after) :
    ∀ test ∈ found, test.branch.Spans after last := by
  induction read with
  | done | rule => exact List.forall_mem_nil _
  | test tags _ _ test _ ih =>
    have here := between.suffix tags.suffix
    exact List.forall_mem_cons.mpr ⟨test.spans here deep (tags.spans between),
      ih ((here.suffix (List.suffix_cons ..)).suffix test.suffix)⟩

theorem Body.spans {found : Document.Body} (read : Body release lines found rest)
    (between : Between after last lines) (deep : 1 ≤ after) :
    ∀ branch ∈ found.branches, branch.Spans after last := by
  cases read with
  | background tags _ steps tests =>
    have here := between.suffix tags.suffix
    have stepped := steps.spans (here.below.suffix (header_suffix ..)) (Nat.succ_le_succ deep)
    refine List.forall_mem_append.mpr ⟨List.forall_mem_singleton.mpr
      (.at here.place (List.forall_mem_map.mpr fun step member => ?_)),
        List.forall_mem_map.mpr (tests.spans ?_ deep)⟩
    · exact (stepped step member).part (Nat.succ_le_succ deep) rfl
    · exact here.suffix (steps.suffix.trans ((header_suffix ..).trans (List.suffix_cons ..)))
  | tests tests => exact List.forall_mem_map.mpr (tests.spans between deep)

/-- What a feature or rule consists of besides tags and rules is one line below its header. -/
theorem parts_body {body : Document.Body}
    (parts : ∀ branch ∈ body.branches, branch.Spans (after + 1) last) :
    ∀ branch ∈ body.branches,
      branch.Spans (max after (linesAbove branch.kind)) (last - linesBelow branch.kind) := by
  have kinds : ∀ branch ∈ body.branches,
      linesAbove branch.kind = 1 ∧ linesBelow branch.kind = 0 := by
    refine List.forall_mem_append.mpr ⟨List.forall_mem_map.mpr fun background _ => ⟨rfl, rfl⟩,
      List.forall_mem_map.mpr fun test _ => ?_⟩
    rw [kind_scenario_branch]
    split <;> exact ⟨rfl, rfl⟩
  intro branch member
  obtain ⟨above, below⟩ := kinds branch member
  exact (parts branch member).part (above ▸ Nat.le_add_left ..) below

theorem Rules.spans {found : List Rule} (read : Rules release lines found)
    (between : Between after last lines) : ∀ rule ∈ found, rule.branch.Spans after last := by
  induction read with
  | done => exact List.forall_mem_nil _
  | rule _ tags _ _ body _ ih =>
    have here := between.suffix tags.suffix
    have parts := body.spans (here.below.suffix (header_suffix ..)) (Nat.le_add_left ..)
    have later := here.suffix (body.suffix.trans ((header_suffix ..).trans (List.suffix_cons ..)))
    refine List.forall_mem_cons.mpr
      ⟨.at here.place (List.forall_mem_append.mpr ⟨?_, parts_body parts⟩), ih later⟩
    exact List.forall_mem_map.mpr fun tag member => (tags.spans between tag member).tag

theorem Feature.spans {language : Text} {found : Option Document.Feature}
    (read : Feature release language lines found) (between : Between after last lines) :
    ∀ feature ∈ found, feature.branch.Spans after last := by
  cases read with
  | none => exact nofun
  | some tags _ body rules =>
    rintro _ ⟨⟩
    have here := between.suffix tags.suffix
    have parts := body.spans (here.below.suffix (header_suffix ..)) (Nat.le_add_left ..)
    have ruled := rules.spans (here.below.suffix (body.suffix.trans (header_suffix ..)))
    refine .at here.place (List.forall_mem_append.mpr ⟨?_, List.forall_mem_append.mpr
      ⟨parts_body parts, List.forall_mem_map.mpr fun rule member => ?_⟩⟩)
    · exact List.forall_mem_map.mpr fun tag member => (tags.spans between tag member).tag
    · exact (ruled rule member).part (Nat.le_add_left ..) rfl

end Grammar

namespace Document

variable {release : Release} {dialect : Dialect} {file source : Text} {document : Document}

/-- The parts of a document that was read are on lines of its source text. -/
theorem spans_of_read (read : Document.read release dialect file source = .ok document)
    (uri : Text) : (document.branch uri).Spans 0 (Text.lines source).length := by
  obtain ⟨_, feature⟩ := read_eq_ok_iff_feature.mp read
  have between := Line.between_readAll (settledDialect dialect source) 0 (Text.lines source)
  rw [Nat.zero_add] at between
  refine .node nofun (List.forall_mem_map.mpr fun given member => ?_)
  exact feature.spans between given (Option.mem_toList.mp member)

end Document

end Gherkin
