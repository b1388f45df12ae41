/-!
# Scripts of the scenarios

Short scripts, each for one thing that a script can do or do wrong.
-/

namespace ArmaScript.Scenario

/-- Scripts that can be read, for all sorts of statements and directives. -/
def readable : List String := [
  "_x = 1;", "_y = 2.5 + 3 * (4 - 1);", "private _z = [1, 2, 3];",
  "if (true) then \x7bhint \"a\"\x7d else \x7bhint \"b\"\x7d;",
  "for \"_i\" from 1 to 10 step 2 do \x7b_s = _s + _i;\x7d;",
  "for [\x7b_i=0\x7d,\x7b_i<5\x7d,\x7b_i=_i+1\x7d] do \x7b_s = _s + _i;\x7d;",
  "while \x7b_a < 10\x7d do \x7b_a = _a + 1;\x7d;", "\x7b_x + 1\x7d forEach [1,2,3];",
  "switch (1) do \x7bcase 1: \x7b\"one\"\x7d; case 2: \x7b\"two\"\x7d; default \x7b\"other\"\x7d;\x7d;",
  "try \x7bthrow \"e\"\x7d catch \x7bhint str _exception\x7d;",
  "with uiNamespace do \x7b_v = 1\x7d;", "[1,2,3] select 0;", "(_a + _b) * (_c - _d);",
  "_arr pushBack 4; _arr pushBackUnique 5;", "missionNamespace setVariable [\"x\", 1];",
  "missionNamespace getVariable [\"x\", 0];", "_a = [1,\t2,\r\n3];\n",
  "#include \"macros.hpp\"\n_x = 1;", "#define A 1\n_x = A + A;",
  "#define ADD(X,Y) ((X) + (Y))\n_x = ADD(1,2);",
  "#define FLAG\n#ifdef FLAG\n_x = 1;\n#else\n_x = 2;\n#endif\n",
  "#ifndef MISSING\n_y = 3;\n#endif\n", "#ifdef A\n_x = 1;\n#else\n_x = 2;\n#endif\n",
  "#ifdef A\n#ifdef B\n1\n#endif\n#endif\n",
  "#ifdef A\n#define DEBUG true\n#else\n#define DEBUG false\n#endif\n[1,2];s;",
  "#ifdef A\n#include \"A\"\n#endif\nx = \"1\";", "// line comment\n/* block\ncomment */\n_x = 1;",
  "a = 'single' + 'quoted';", "a = \"double \"\"quoted\"\" string\";", "!true || (false && true);",
  "_x = -floor -5.25;", "params [\"_a\", [\"_b\", 0], [\"_c\", 1, [0]]];",
  "[1,2] params [\"_a\", \"_b\"];", "call \x7b1 + 2\x7d;",
  "[1] call \x7b(_this select 0) + 1\x7d;", "isNil \"_x\";", "\"true\" configClasses configFile;",
  "player setPos [0,0,0];", "east; west; civilian;", "count [1,2,3];",
  "[1,2,3] apply \x7b_x * 2\x7d;", "0 spawn \x7bhint \"hello\"\x7d;",
  "_a = true; _b = false; _a && \x7b_b\x7d;", "#define A\n",
  "#define TWO(X) X\\\n+X\n_x = TWO(5);", "_x = 1 max 2; _y = 1 mod 2; _z = 2 ^ 3;",
  "_x = [1,2,3]; reverse _x; _x resize 2;", "[1,2,3] find 2; \"abc\" find \"b\";",
  "toArray \"ab\"; toString [65, 66];"]

def unreadable : List String := [
  "_x = (1", "_x = [1", "_x = \x7b1", "_x = 1 + 2)", "[1,,2]", "[1,2,]", "#define\n", "\"abc",
  "#ifdef A\n_x = 1;"]

/-- Scripts to be checked, with and without findings. -/
def checkable : List String := [
  "_x;", "x = 2;", "private _x = 1 < 2; _x", "private [\"_x\", \"_y\"]; _x; _y", "private _u = 1;",
  "private \"_x\"; a = _X", "1 = 2;", "_this select 0;", "global select 0;", "y = x + 1",
  "\x7bsleep 1\x7d forEach lamps;", "y = \x7bif (_x == 1) exitWith \x7b1\x7d;\x7d forEach x;",
  "configFile >> \"CfgWeapons\" >> x >> \"mass\"", "a = createMarker [\"a\", [0,0,0]];",
  "while \x7bcount x > 0\x7d do \x7b\x7d", "!isNull x", "x = !isServer;", "floor random 3", "_foo",
  "x = \x7bcall x\x7d; call x", "_a", "hint 1", "1 hint 2", "#include \"macros.hpp\"\nx = 1;",
  "#include\n", "#include _x\n", "#define A 2\nx = A", "#define A(_x) (_x == 2)\nx = A(3)",
  "#define A\n#ifdef A\na=1\n#endif", "#define A\n_x = 2;", "#define A\n#define B\n_x = 1;  _x",
  "#define A\n_x = 1;\nyy = 1 + _x", "with uiNamespace do \x7bx = 2\x7d", "x = ((call y) == 2)",
  "private 1", "1 2", "switch (x) do \x7bcase 1: \x7b\"a\"\x7d; default \x7b\"b\"\x7d\x7d",
  "if (true) then \x7b1\x7d else \x7b2\x7d",
  "try \x7bthrow 1\x7d catch \x7bhint str _exception\x7d",
  "_f = \x7bhint \"a\"\x7d; x = 1; [1,2] call _f", "[1,2] apply \x7b_x * 2\x7d",
  "0 spawn \x7bhint \"hello\"\x7d", "private _x;",
  "for \"_i\" from 0 to 10 do \x7bhint str _i\x7d", "private (allVariables missionNamespace);",
  "params [\"_a\", 1, [\"_b\"]]", "params [\"_a\", [\"_b\", 2]]; _a; _b",
  "[1,2,3] params [\"_a\"]", "[1] call \x7bparams [\"_a\"]; _a\x7d", "private [1];",
  "private \"x\";", "for \"_i\" from 0 to _n do \x7b\x7d", "x = [1,2,3] select 0;",
  "\x7bhint format [\"%1\", _x]\x7d forEach _arr", "_x call \x7b_x\x7d", "isNil \"x\"", "+",
  "isNil \"(\""]

def computable : List String := [
  "_x = 10 / 2; _x", "_x = 1 + 1; _x", "1 + 2 * 3", "_x = 1; _x = _x + 2; _x",
  "_x = 2; _y = _x + 1; _y", "4 - 2", "8 mod 3", "_x = [1,2,3,4]; _x select [1,3]", "3 ^ 2",
  "2 * 2", "1 max 2", "5 - 6", "_x = [1]; _x pushBack 1; _x pushBack 2",
  "_x = [1,2,3]; _x pushBack 4; count _x", "count [1,2,3]", "floor 5.25", "[1,2,3] select 1",
  "_x = [1,2,3,4]; _x - [2,3]", "[1,2] + [3,4]", "[1,2] find 2", "[1,2] find 3",
  "_x = [1]; _x append [2]; count _x", "2 in [1,2]", "toArray \"AB\"", "toString [65,66]",
  "\"a\" + \"b\"", "\"hello world\" find \" world\"", "-3", "1 < 2", "1 <= 1", "2 >= 1", "1 == 1",
  "1 != 2", "\"a\" == \"a\"", "true || false", "true && false", "true && \x7btrue\x7d",
  "false || \x7btrue\x7d", "true or false", "if (true) then \x7b1\x7d else \x7b2\x7d",
  "if (false) then \x7b1\x7d else \x7b2\x7d", "if (true) then \x7b1\x7d",
  "if (false) then \x7b1\x7d", "if (true) then [\x7b1\x7d, \x7b2\x7d]",
  "_s = 0; \x7b_s = _s + _x\x7d forEach [1,2,3]; _s",
  "_s = 0; for \"_i\" from 0 to 4 step 2 do \x7b_s = _s + _i * 2\x7d; _s",
  "_a = 0; while \x7b_a < 3\x7d do \x7b_a = _a + 1\x7d; _a",
  "_s = 0; for [\x7b_i=0\x7d,\x7b_i<4\x7d,\x7b_i=_i+1\x7d] do \x7b_s = _s + _i\x7d; _s",
  "[1] call \x7b(_this select 0) + 2\x7d",
  "switch (2) do \x7bcase 1: \x7b\"a\"\x7d; case 2: \x7b\"b\"\x7d; default \x7b\"z\"\x7d\x7d",
  "switch (3) do \x7bcase 1: \x7b\"a\"\x7d; case 2: \x7b\"b\"\x7d; default \x7b\"z\"\x7d\x7d",
  "switch (1) do \x7bcase 2: \x7b\"a\"\x7d\x7d", "with uiNamespace do \x7b7\x7d",
  "missionNamespace setVariable [\"x\", 42]; missionNamespace getVariable \"x\"",
  "missionNamespace getVariable [\"y\", 1]", "params [[\"_x\", 10]]; _x",
  "[1,2,3] call \x7bparams [\"_a\", \"_b\", \"_c\"]; _a + _b + _c\x7d", "call \x7b3 + 4\x7d",
  "_x = [1,2]; reverse _x; _x select 1", "_x = [1,2,3]; _x resize 2; count _x",
  "_x = [1]; _x set [1, 2]; _x select 1", "private _x = 2; _x", "2 ^ 3",
  "_x = 3; _y = \x7b_x + 1\x7d; call _y"]

/-- Scripts that fail when they are run, all but one. -/
def failing : List String := [
  "_y == 3", "true == false", "missionNamespace getVariable [\"x\"]",
  "missionNamespace getVariable [1, 2]", "missionNamespace setVariable [\"x\"]",
  "missionNamespace setVariable [1, 2]", "[1,2,3] select [4,10]", "[1,2,3] select 10", "1 + \"a\"",
  "publicVariable \"_local\"", "1 2", "true && \x7b1\x7d", "switch (0) do \x7b1 + 1\x7d",
  "switch (0) do \x7bcase (1): \x7b\"one\"\x7d; default \x7b\"as\"\x7d; default \x7b\"ass\"\x7d\x7d",
  "switch (0) do \x7bcase 1: \x7b2\x7d\x7d", "params [1]", "params [[\"_x\"]]",
  "1 publicVariableClient \"_x\"", "publicVariableServer \"_x\"",
  "[1,2] call \x7bparams [\"_a\"]\x7d"]

end ArmaScript.Scenario
