/-
This file holds the templates of which a client is made. A class is either written together with the
support that it needs, or imports it; in segments only the class of the client opens with its title.
Nothing that a template shows can be missing, because each is filled in with all that it names.
-/

import ApiSurface.Template.Basic

namespace ApiSurface.Client

/-- A text of whole lines. -/
def lines (texts : List String) : Template.Element :=
  .text (String.join (texts.map fun text => text ++ "\n"))

/-- The support that every client needs: its failures, how a request is sent and how an answer is decoded. -/
def runtimeTemplate : Template := [
    .text "// Runtime support for the ", .value ["title"],
    lines [
        " client. Generated by apiforge; do not edit.",
        "",
        "/** Raised before dispatch when a required argument is null or undefined. */",
        "export class MissingParameterError extends Error \x7b",
        "  constructor(readonly parameter: string) \x7b",
        "    super(`missing required parameter '$\x7bparameter\x7d'`);",
        "    this.name = \"MissingParameterError\";",
        "  \x7d",
        "\x7d",
        "",
        "/** Raised when the request fails or the server answers with an error status. */",
        "export class HttpError extends Error \x7b",
        "  constructor(",
        "    message: string,",
        "    readonly status: number,",
        "    readonly body: string,",
        "  ) \x7b",
        "    super(message);",
        "    this.name = \"HttpError\";",
        "  \x7d",
        "\x7d",
        "",
        "/** Raised when a response body is not valid JSON. */",
        "export class DecodeError extends Error \x7b",
        "  constructor(",
        "    message: string,",
        "    readonly body: string,",
        "  ) \x7b",
        "    super(message);",
        "    this.name = \"DecodeError\";",
        "  \x7d",
        "\x7d",
        "",
        "export interface RequestOptions \x7b",
        "  query?: Record<string, unknown>;",
        "  json?: unknown;",
        "  form?: Record<string, unknown>;",
        "  files?: Record<string, Blob | Blob[]>;",
        "  content?: unknown;",
        "  contentType?: string;",
        "\x7d",
        "",
        "export interface ToolListing \x7b",
        "  name: string;",
        "  summary: string;",
        "  tags: string[];",
        "  call: (...args: any[]) => Promise<unknown>;",
        "\x7d",
        "",
        "function appendAll(target: URLSearchParams | FormData, key: string, value: unknown): void \x7b",
        "  for (const item of Array.isArray(value) ? value : [value]) \x7b",
        "    target.append(key, typeof item === \"object\" ? JSON.stringify(item) : String(item));",
        "  \x7d",
        "\x7d",
        "",
        "export async function sendRequest(",
        "  baseUrl: string,",
        "  headers: Record<string, string>,",
        "  method: string,",
        "  path: string,",
        "  options: RequestOptions = \x7b\x7d,",
        "): Promise<Response> \x7b",
        "  const url = new URL(baseUrl.replace(/\\/+$/, \"\") + path);",
        "  for (const [key, value] of Object.entries(options.query ?? \x7b\x7d)) \x7b",
        "    appendAll(url.searchParams, key, value);",
        "  \x7d",
        "",
        "  const requestHeaders: Record<string, string> = \x7b ...headers \x7d;",
        "  let body: BodyInit | undefined;",
        "  if (options.files !== undefined) \x7b",
        "    const form = new FormData();",
        "    for (const [key, value] of Object.entries(options.form ?? \x7b\x7d)) \x7b",
        "      appendAll(form, key, value);",
        "    \x7d",
        "    for (const [key, value] of Object.entries(options.files)) \x7b",
        "      for (const file of Array.isArray(value) ? value : [value]) \x7b",
        "        form.append(key, file);",
        "      \x7d",
        "    \x7d",
        "    body = form;",
        "  \x7d else if (options.form !== undefined) \x7b",
        "    const form = new URLSearchParams();",
        "    for (const [key, value] of Object.entries(options.form)) \x7b",
        "      appendAll(form, key, value);",
        "    \x7d",
        "    body = form;",
        "  \x7d else if (options.json !== undefined) \x7b",
        "    body = JSON.stringify(options.json);",
        "    requestHeaders[\"Content-Type\"] = options.contentType ?? \"application/json\";",
        "  \x7d else if (options.content !== undefined) \x7b",
        "    body = options.content as BodyInit;",
        "    if (options.contentType !== undefined) \x7b",
        "      requestHeaders[\"Content-Type\"] = options.contentType;",
        "    \x7d",
        "  \x7d",
        "",
        "  let response: Response;",
        "  try \x7b",
        "    response = await fetch(url, \x7b method, headers: requestHeaders, body \x7d);",
        "  \x7d catch (error) \x7b",
        "    throw new HttpError(`$\x7bmethod\x7d $\x7bpath\x7d failed: $\x7bString(error)\x7d`, 0, \"\");",
        "  \x7d",
        "  if (!response.ok) \x7b",
        "    const text = await response.text();",
        "    throw new HttpError(`$\x7bmethod\x7d $\x7bpath\x7d returned $\x7bresponse.status\x7d`, response.status, text);",
        "  \x7d",
        "  return response;",
        "\x7d",
        "",
        "export async function decodeResponse(response: Response): Promise<unknown> \x7b",
        "  if (response.status === 204) \x7b",
        "    return null;",
        "  \x7d",
        "  const text = await response.text();",
        "  if (text.trim() === \"\") \x7b",
        "    return null;",
        "  \x7d",
        "  try \x7b",
        "    return JSON.parse(text);",
        "  \x7d catch (error) \x7b",
        "    throw new DecodeError(`response is not valid JSON: $\x7bString(error)\x7d`, text);",
        "  \x7d",
        "\x7d"]]

/-- The methods of a class that send a request, one for each verb. -/
def transportTemplate : Template := [
    .each ["verbs"] [
        .text "\n  async _", .value ["name"],
        .text "(path: string, options: RequestOptions = \x7b\x7d): Promise<Response> \x7b\n    return ",
        .value ["dispatch"],
        lines [
            ";",
            "  \x7d"]] none]

/-- A method of a class, below an empty line. -/
def methodTemplate : Template := [
    .text "\n", .value ["doc_comment"], .text "\n  async ", .value ["name"], .text "(",
    .value ["signature"], .text "): Promise<", .value ["return_type"], .text "> \x7b\n",
    .each ["body"] [
        .text "    ", .value [], .text "\n"] none,
    .text "  \x7d\n"]

/-- The class of a client, with a field for each segment and the methods that stay with it. -/
def clientTemplate : Template := [
    .when ["split"] [
        .text "// ", .value ["title"],
        lines [
            " client. Generated by apiforge; do not edit.",
            "",
            "import \x7b",
            "  MissingParameterError,",
            "  type RequestOptions,",
            "  type ToolListing,",
            "  decodeResponse,",
            "  sendRequest,",
            "\x7d from \"./runtime\";"],
        .each ["segments"] [
            .text "import \x7b ", .value ["class_name"], .text " \x7d from \"./segments/",
            .value ["group_key"], .text "\";\n"] none] [],
    lines [
        "",
        "/**"],
    .text " * Client for ", .value ["title"],
    lines [
        ".",
        " */"],
    .text "export class ", .value ["class_name"], .text " \x7b\n",
    .each ["segments"] [
        .text "  readonly ", .value ["field"], .text ": ", .value ["class_name"], .text ";\n"] none,
    lines [
        "",
        "  constructor("],
    .text "    readonly baseUrl: string = ", .value ["base_url"],
    lines [
        ",",
        "    readonly headers: Record<string, string> = \x7b\x7d,",
        "  ) \x7b"],
    .each ["segments"] [
        .text "    this.", .value ["field"], .text " = new ", .value ["class_name"],
        .text "(this);\n"] none,
    .text "  \x7d\n", .inclusion "transport",
    .each ["methods"] [
        .inclusion "method"] none,
    lines [
        "",
        "  list_tools(): ToolListing[] \x7b",
        "    return ["],
    .each ["segments"] [
        .text "      ...this.", .value ["field"], .text ".list_tools(),\n"] none,
    .each ["methods"] [
        .text "      \x7b name: ", .value ["name_literal"], .text ", summary: ",
        .value ["summary_literal"], .text ", tags: ", .value ["tags_literal"],
        .text ", call: this.", .value ["name"], .text ".bind(this) \x7d,\n"] none,
    lines [
        "    ];",
        "  \x7d",
        "\x7d"]]

/-- The class of a segment. -/
def segmentTemplate : Template := [
    .text "// ", .value ["title"], .text " client, `", .value ["group_key"],
    lines [
        "` segment. Generated by apiforge; do not edit.",
        "",
        "import \x7b MissingParameterError, type RequestOptions, type ToolListing, decodeResponse \x7d from \"../runtime\";"],
    .text "import type \x7b ", .value ["root_class"], .text " \x7d from \"../",
    .value ["root_stem"],
    lines [
        "\";",
        ""],
    .text "export class ", .value ["class_name"],
    .text " \x7b\n  constructor(private readonly client: ", .value ["root_class"],
    .text ") \x7b\x7d\n", .inclusion "transport",
    .each ["methods"] [
        .inclusion "method"] none,
    lines [
        "",
        "  list_tools(): ToolListing[] \x7b",
        "    return ["],
    .each ["methods"] [
        .text "      \x7b name: ", .value ["name_literal"], .text ", summary: ",
        .value ["summary_literal"], .text ", tags: ", .value ["tags_literal"],
        .text ", call: this.", .value ["name"], .text ".bind(this) \x7d,\n"] none,
    lines [
        "    ];",
        "  \x7d",
        "\x7d"]]

/-- The templates of which a client is made, under their names. -/
def templates : TemplateLibrary :=
  [("runtime", runtimeTemplate), ("client", clientTemplate), ("segment", segmentTemplate),
    ("method", methodTemplate), ("transport", transportTemplate)]

end ApiSurface.Client
