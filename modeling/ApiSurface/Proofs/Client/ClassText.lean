/-
This file tells what the classes of a client declare. The text of a class is that of its members, one
after the other, and every member has its name at a known place of its text. So what is known about the
names of fields and methods is known about the written class.
-/

import ApiSurface.Client.Files
import ApiSurface.Proofs.Fault
import ApiSurface.Proofs.Template.Filling

namespace ApiSurface

namespace Client

/-- The text of whole lines. -/
def written (texts : List String) : String :=
  String.join (texts.map fun text => text ++ "\n")

end Client

theorem Template.Fills.lines {included : String → Json → Option (List Char)} {given : Json}
    {rest : List Element} {texts : List String} {tail : String} (others : Fills included given rest tail) :
    Fills included given (Client.lines texts :: rest) (Client.written texts ++ tail) :=
  .text others

namespace Client

open Template (Fills)

/-! ### Members -/

/-- A member of a class: its name, and the texts around it. -/
structure Member where
  /-- What stands in front of the name. -/
  lead : String
  /-- The name. -/
  name : String
  /-- What stands behind the name, up to the next member. -/
  rest : String
  deriving DecidableEq, Repr, Inhabited

namespace Member

def text (member : Member) : String :=
  member.lead ++ member.name ++ member.rest

/-- Members one after the other. -/
def joined (members : List Member) : String :=
  String.join (members.map text)

/-- The field of a client that holds a segment. -/
def ofSegment (segment : Segment) : Member :=
  ⟨"  readonly ", segment.field, ": " ++ segment.className ++ ";\n"⟩

/-- The method that sends a request with a verb. -/
def ofVerb (call : Verb → String) (verb : Verb) : Member :=
  ⟨"\n  async ", "_" ++ verb.lower,
    "(path: string, options: RequestOptions = \x7b\x7d): Promise<Response> \x7b\n    return " ++
      call verb ++ ";\n  \x7d\n"⟩

/-- The method for an operation. -/
def ofMethod (method : Method) : Member :=
  ⟨"\n" ++ DocBlock.toComment method.doc.render "  " ++ "\n  async ", method.name,
    "(" ++ method.signature ++ "): Promise<" ++ method.returnType ++ "> \x7b\n" ++
      String.join (method.body.map fun line => "    " ++ line ++ "\n") ++ "  \x7d\n"⟩

/-- The method that lists the methods for operations. -/
def ofListing (entries : String) : Member :=
  ⟨"\n  ", "list_tools", "(): ToolListing[] \x7b\n    return [\n" ++ entries ++ "    ];\n  \x7d\n"⟩

theorem joined_nil : joined [] = "" := rfl

theorem joined_cons (first : Member) (rest : List Member) :
    joined (first :: rest) = first.lead ++ first.name ++ first.rest ++ joined rest :=
  String.join_cons

theorem joined_append (first second : List Member) :
    joined (first ++ second) = joined first ++ joined second := by
  rw [joined, List.map_append, String.join_append]
  rfl

theorem joined_map {Item : Type} (items : List Item) (member : Item → Member) :
    joined (items.map member) = String.join (items.map fun item => (member item).text) := by
  rw [joined, List.map_map]
  rfl

end Member

/-- What a list of methods says of a method. -/
def entryOf (method : Method) : String :=
  "      \x7b name: " ++ TypeScript.stringLiteral method.name ++ ", summary: " ++
    TypeScript.stringLiteral (Text.firstParagraph method.doc.summary) ++ ", tags: " ++
    (Json.ofTexts method.doc.tags).compact ++ ", call: this." ++ method.name ++ ".bind(this) \x7d,\n"

/-- The members of the class of a client. A property that the constructor declares is one of them. -/
def rootMembers (client : Client) (segments : List Segment) (methods : List Method) : List Member :=
  segments.map .ofSegment ++
    [⟨"\n  ", "constructor", "(\n"⟩,
      ⟨"    readonly ", "baseUrl", ": string = " ++ TypeScript.stringLiteral client.baseUrl ++ ",\n"⟩,
      ⟨"    readonly ", "headers", ": Record<string, string> = \x7b\x7d,\n  ) \x7b\n" ++
        String.join (segments.map fun segment =>
          "    this." ++ segment.field ++ " = new " ++ segment.className ++ "(this);\n") ++
        "  \x7d\n"⟩] ++
    transportVerbs.map (.ofVerb sendingCall) ++ methods.map .ofMethod ++
    [.ofListing (String.join (segments.map fun segment =>
        "      ...this." ++ segment.field ++ ".list_tools(),\n") ++
      String.join (methods.map entryOf))]

/-- The members of the class of a segment. -/
def segmentMembers (client : Client) (segment : Segment) : List Member :=
  [⟨"  ", "constructor", "(private readonly "⟩,
      ⟨"", "client", ": " ++ client.className ++ ") \x7b\x7d\n"⟩] ++
    transportVerbs.map (.ofVerb forwardingCall) ++ segment.methods.map .ofMethod ++
    [.ofListing (String.join (segment.methods.map entryOf))]

/-! ### Classes -/

/-- A class with a name and some members. -/
def classText (name : String) (members : List Member) : String :=
  "export class " ++ name ++ " \x7b\n" ++ Member.joined members ++ "\x7d\n"

/-- What stands in front of the class of a split client. -/
def rootLead (client : Client) (segments : List Segment) : String :=
  "// " ++ client.title ++ written [
      " client. Generated by apiforge; do not edit.",
      "",
      "import \x7b",
      "  MissingParameterError,",
      "  type RequestOptions,",
      "  type ToolListing,",
      "  decodeResponse,",
      "  sendRequest,",
      "\x7d from \"./runtime\";"] ++
    String.join (segments.map fun segment =>
      "import \x7b " ++ segment.className ++ " \x7d from \"./segments/" ++ segment.key ++ "\";\n")

/-- What is said about the class of a client. -/
def rootComment (client : Client) : String :=
  written ["", "/**"] ++ " * Client for " ++ client.title ++ written [".", " */"]

/-- What stands in front of the class of a segment. -/
def segmentLead (client : Client) (stem : String) (segment : Segment) : String :=
  "// " ++ client.title ++ " client, `" ++ segment.key ++ written [
      "` segment. Generated by apiforge; do not edit.",
      "",
      "import \x7b MissingParameterError, type RequestOptions, type ToolListing, decodeResponse \x7d from \"../runtime\";"] ++
    "import type \x7b " ++ client.className ++ " \x7d from \"../" ++ stem ++ written ["\";", ""]

/-! ### Templates

A template is filled in by one lemma for each of its elements, in their order. Its texts run from one
member into the next and hold some of their names, so they have to be cut where a member starts or is
named. -/

section

variable {given : Json} {depth : Nat}

theorem fillTo_transport (call : Verb → String)
    (found : given.follow? ["verbs"] = some (transportContext call)) :
    templates.fillTo (depth + 1) "transport" given =
      some (Member.joined (transportVerbs.map (.ofVerb call))).toList := by
  refine TemplateLibrary.fillTo_succ rfl <| .of_eq ?_ <|
    .each found (fun verb => .text <| .value rfl <| .text <| .value rfl <| .lines .nil) .nil
  have start : "\n  async _" = "\n  async " ++ "_" := rfl
  have finish : written [";", "  \x7d"] = ";\n  \x7d\n" := rfl
  simp only [start, finish, Member.joined_map, Member.text, Member.ofVerb, String.append_assoc,
    String.append_empty]

theorem fillTo_method (method : Method) :
    templates.fillTo (depth + 1) "method" (methodContext method) =
      some (Member.ofMethod method).text.toList := by
  refine TemplateLibrary.fillTo_succ rfl <| .of_eq ?_ <|
    .text <| .value rfl <| .text <| .value rfl <| .text <| .value rfl <| .text <| .value rfl <|
      .text <| .each rfl (fun line => .text <| .value rfl <| .text .nil) <| .text .nil
  simp only [Member.text, Member.ofMethod, String.append_assoc, String.append_empty]

end

theorem listing_eq : written ["", "  list_tools(): ToolListing[] \x7b", "    return ["] =
    "\n  " ++ "list_tools" ++ "(): ToolListing[] \x7b\n    return [\n" := rfl

theorem ending_eq : written ["    ];", "  \x7d", "\x7d"] = "    ];\n  \x7d\n" ++ "\x7d\n" := rfl

theorem render_segment (client : Client) (stem : String) (segment : Segment) :
    templates.render "segment" (segmentContext client stem segment) =
      .ok (segmentLead client stem segment ++
        classText segment.className (segmentMembers client segment)) := by
  refine TemplateLibrary.render_eq_ok rfl rfl <| .of_eq ?_ <|
    .text <| .value rfl <| .text <| .value rfl <| .lines <| .text <| .value rfl <| .text <|
      .value rfl <| .lines <| .text <| .value rfl <| .text <| .value rfl <| .text <|
      .inclusion (fillTo_transport forwardingCall rfl) <|
      .each rfl (fun method => .inclusion (fillTo_method method) .nil) <|
      .lines <|
      .each rfl (fun method => .text <| .value rfl <| .text <| .value rfl <| .text <| .value rfl <|
        .text <| .value rfl <| .text .nil) <|
      .lines .nil
  have opening : " \x7b\n  constructor(private readonly client: " =
    " \x7b\n" ++ "  " ++ "constructor" ++ "(private readonly " ++ "client" ++ ": " := rfl
  unfold segmentLead classText segmentMembers entryOf Member.ofListing
  simp only [Member.joined_append, Member.joined_cons, Member.joined_nil, Member.joined_map, opening,
    listing_eq, ending_eq, String.append_assoc, String.append_empty, String.empty_append]

theorem render_client (client : Client) (split : Bool) (segments : List Segment)
    (methods : List Method) :
    templates.render "client" (clientContext client split segments methods) =
      .ok ((if split then rootLead client segments else "") ++ rootComment client ++
        classText client.className (rootMembers client segments methods)) := by
  refine TemplateLibrary.render_eq_ok rfl rfl <| .of_eq ?_ <|
    .when rfl (show Fills _ _ _ (if split then rootLead client segments else "") from ?lead) <|
      .lines <| .text <| .value rfl <| .lines <| .text <| .value rfl <| .text <|
      .each rfl (fun segment => .text <| .value rfl <| .text <| .value rfl <| .text .nil) <|
      .lines <| .text <| .value rfl <| .lines <|
      .each rfl (fun segment => .text <| .value rfl <| .text <| .value rfl <| .text .nil) <|
      .text <| .inclusion (fillTo_transport sendingCall rfl) <|
      .each rfl (fun method => .inclusion (fillTo_method method) .nil) <|
      .lines <| .each rfl (fun segment => .text <| .value rfl <| .text .nil) <|
      .each rfl (fun method => .text <| .value rfl <| .text <| .value rfl <| .text <| .value rfl <|
        .text <| .value rfl <| .text .nil) <|
      .lines .nil
  case lead =>
    cases split with
    | false => exact .nil
    | true =>
      unfold rootLead
      refine .of_eq ?_ <| .text <| .value rfl <| .lines <| .each rfl (fun segment =>
        .text <| .value rfl <| .text <| .value rfl <| .text .nil) .nil
      simp only [if_true, String.append_assoc, String.append_empty]
  have opening : written ["", "  constructor("] = "\n  " ++ "constructor" ++ "(\n" := rfl
  have baseUrl : "    readonly baseUrl: string = " = "    readonly " ++ "baseUrl" ++ ": string = " := rfl
  have headers : written
        [",", "    readonly headers: Record<string, string> = \x7b\x7d,", "  ) \x7b"] =
      ",\n" ++ "    readonly " ++ "headers" ++
        ": Record<string, string> = \x7b\x7d,\n  ) \x7b\n" := rfl
  unfold rootComment classText rootMembers entryOf Member.ofListing
  simp only [Member.joined_append, Member.joined_cons, Member.joined_nil, Member.joined_map,
    Member.ofSegment, Member.text, opening, baseUrl, headers, listing_eq, ending_eq,
    String.append_assoc, String.append_empty]

/-! ### Files -/

/-- The files of a split client. -/
def splitSources (client : Client) (stem : String) (parts : Partition) (support : String) :
    List GeneratedFile :=
  ⟨stem ++ ".ts", rootLead client parts.segments ++ rootComment client ++
      classText client.className (rootMembers client parts.segments parts.root)⟩ ::
    parts.segments.map (fun segment => ⟨"segments/" ++ segment.key ++ ".ts",
      segmentLead client stem segment ++ classText segment.className (segmentMembers client segment)⟩) ++
    [⟨"runtime.ts", support⟩]

theorem exists_supportText (client : Client) : ∃ support, client.supportText = .ok support :=
  ⟨_, TemplateLibrary.render_eq_ok rfl rfl <| .text <| .value rfl <| .lines .nil⟩

/-- A client whose methods can be sorted by topic can be written in parts. -/
theorem exists_splitFiles_eq {client : Client} {parts : Partition} (done : partition client = .ok parts)
    (stem : String) :
    ∃ support, client.supportText = .ok support ∧
      client.splitFiles stem = .ok (splitSources client stem parts support) := by
  obtain ⟨support, supported⟩ := exists_supportText client
  have segments : parts.segments.mapM (segmentFile client stem) = .ok (parts.segments.map fun segment =>
      ⟨"segments/" ++ segment.key ++ ".ts", segmentLead client stem segment ++
        classText segment.className (segmentMembers client segment)⟩) := by
    refine Eq.trans (congrArg parts.segments.mapM (funext fun segment => ?_)) List.mapM_pure
    rw [segmentFile, render_segment]
    rfl
  exact ⟨support, supported, bind_eq_ok.mpr ⟨parts, done,
    bind_eq_ok.mpr ⟨_, render_client client true _ _,
      bind_eq_ok.mpr ⟨_, segments, bind_eq_ok.mpr ⟨support, supported, rfl⟩⟩⟩⟩⟩

/-- A client that is not split can always be written. -/
theorem exists_render_eq (client : Client) :
    ∃ support, client.supportText = .ok support ∧
      client.render = .ok (support ++ (rootComment client ++
        classText client.className (rootMembers client [] client.methods))) := by
  obtain ⟨support, supported⟩ := exists_supportText client
  have unled := render_client client false [] client.methods
  rw [if_neg Bool.false_ne_true, String.empty_append] at unled
  exact ⟨support, supported, bind_eq_ok.mpr ⟨support, supported, bind_eq_ok.mpr ⟨_, unled, rfl⟩⟩⟩

end Client

end ApiSurface
