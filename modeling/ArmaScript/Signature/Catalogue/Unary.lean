import ArmaScript.Signature.Catalogue.Row

/-!
# Commands with one operand

The commands by the kinds of their operand and result. Those of one keyword stand in the order in
which they are tried.
-/

namespace ArmaScript.Catalogue

def unarySymbols : List Signature := [
  unary "!" .boolean .boolean,
  unary "+" .number .number,
  unary "+" .array .array,
  unary "-" .number .number]

def unaryWords : List Signature := List.flatten [
  before .object .boolean [
    "alive", "attackenabled", "camcommitted", "campreloaded", "canfire", "canmove", "canstand",
    "cantriggerdynamicsimulation", "canunloadincombat", "captive", "curatoreditingareatype",
    "didjipowner", "dynamicsimulationenabled", "fleeing", "haspilotcamera", "inflamed",
    "isabletobreathe", "isaimprecisionenabled", "isautohoveron", "isautonomous", "isautotrimonrtd",
    "isbleeding", "isburning", "iscollisionlighton", "iscopilotenabled", "isdamageallowed",
    "isengineon", "isforcedwalk", "isformationleader", "ishidden", "isinremainscollector",
    "islighton", "ismanualfire", "ismarkedforcollection", "isnull", "isobjecthidden", "isobjectrtd",
    "isonroad", "isplayer", "issimpleobject", "issprintallowed", "isstaminaenabled",
    "istouchingground", "isturnedout", "isuavconnected", "isvehicleradaron", "iswalking",
    "isweapondeployed", "isweaponrested", "local", "lockeddriver", "lockidentity", "mineactive",
    "movetocompleted", "movetofailed", "reloadenabled", "ropeattachenabled", "ropeunwound",
    "simulationenabled", "someammo", "stopped", "triggeractivated", "underwater", "unitisuav",
    "unitready", "vehiclecargoenabled", "vehiclereceiveremotetargets", "vehiclereportownposition",
    "vehiclereportremotetargets", "waypointsenableduav", "weaponlowered"],
  before .object .nothing [
    "addswitchableunit", "airportside", "camdestroy", "clearallitemsfrombackpack",
    "clearbackpackcargo", "clearbackpackcargoglobal", "clearitemcargo", "clearitemcargoglobal",
    "clearmagazinecargo", "clearmagazinecargoglobal", "clearweaponcargo", "clearweaponcargoglobal",
    "commandgetout", "commandstop", "createvehiclecrew", "deletecollection", "deletesite",
    "deletevehicle", "detach", "dogetout", "dostop", "fillweaponsfrompool", "forcerespawn",
    "hcremoveallgroups", "hidebody", "hideobject", "hideobjectglobal", "lightdetachobject",
    "moveout", "pickweaponpool", "putweaponpool", "reload", "removeallactions",
    "removeallassigneditems", "removeallcontainers", "removeallcuratoraddons",
    "removeallcuratorcameraareas", "removeallcuratoreditingareas", "removeallhandgunitems",
    "removeallitems", "removeallitemswithmagazines", "removeallownedmines",
    "removeallprimaryweaponitems", "removeallweapons", "removebackpack", "removebackpackglobal",
    "removegoggles", "removeheadgear", "removeswitchableunit", "removeuniform", "removevest",
    "resetsubgroupdirection", "ropedestroy", "selectplayer", "setplayable", "stopenginertd",
    "switchcamera", "unassigncurator", "unassignteam", "unassignvehicle"],
  before .object .number [
    "airplanethrottle", "camerainterest", "captivenum", "collectivertd", "curatorcameraareaceiling",
    "curatorpoints", "curatorwaypointcost", "currentvisionmode", "currentzeroing", "damage",
    "direction", "flaganimationphase", "formationdirection", "fuel", "getaimingcoef",
    "getammocargo", "getanimaimprecision", "getanimspeedcoef", "getbleedingremaining",
    "getburningvalue", "getcustomaimcoef", "getdammage", "getdir", "getdirvisual", "getfatigue",
    "getfuelcargo", "getmass", "getobjectdlc", "getobjecttype", "getoxygenremaining",
    "getplayerchannel", "getrepaircargo", "getrotorbrakertd", "getstamina", "getsuppression",
    "getweaponsway", "getwingsorientationrtd", "getwingspositionrtd", "handshit", "load", "loadabs",
    "loadbackpack", "loaduniform", "loadvest", "locked", "morale", "movetime", "needreload",
    "numberofenginesrtd", "owner", "precision", "rankid", "rating", "ropelength", "score",
    "scudstate", "skill", "speed", "triggertimeoutcurrent", "unitrecoilcoefficient"],
  before .boolean .nothing [
    "buldozer_enableroaddiag", "cameraeffectenablehud", "camusenvg", "disableremotesensors",
    "disableuserinput", "enablecamshake", "enablecaustics", "enablediaglegend",
    "enabledynamicsimulationsystem", "enableengineartillery", "enableenvironment", "enableradio",
    "enablesatnormalondetail", "enablesaving", "enablesentences", "enablestressdamage",
    "enableteamswitch", "enabletraffic", "enableweapondisassembly", "forcemap", "hcshowbar",
    "setgroupiconsselectable", "showchat", "showcinemaborder", "showcompass", "showcuratorcompass",
    "showgps", "showhud", "showmap", "showpad", "showradio", "showuavfeed", "showwarrant",
    "showwatch", "showwaypoints", "useaiopermapobstructiontest", "useaisteeringcomponent"],
  before .object .object [
    "assignedcommander", "assigneddriver", "assignedgunner", "assignedtarget", "assignedvehicle",
    "attachedto", "backpackcontainer", "camtarget", "commander", "driver", "effectivecommander",
    "firstbackpack", "flag", "flagowner", "formationleader", "formleader",
    "getassignedcuratorlogic", "getassignedcuratorunit", "getconnecteduav", "getslingload",
    "gunner", "isvehiclecargo", "lasertarget", "leader", "nearestbuilding", "objectparent",
    "roadat", "ropeattachedto", "triggerattachedvehicle", "uniformcontainer", "unitbackpack",
    "vehicle", "vestcontainer"],
  before .array .number [
    "add3deneventhandler", "addforcegeneratorrtd", "addmissioneventhandler", "addmusiceventhandler",
    "count", "datetonumber", "getterrainheightasl", "lbadd", "lbvalue", "linearconversion",
    "lnbaddarray", "lnbaddcolumn", "lnbaddrow", "lnbvalue", "lognetwork", "menuadd", "menushortcut",
    "menusize", "menuvalue", "moonphase", "radiochannelcreate", "random", "simulclouddensity",
    "simulcloudocclusion", "tvadd", "tvcount", "tvvalue", "vectormagnitude", "vectormagnitudesqr",
    "waypointcompletionradius", "waypointhouseposition", "waypointloiterradius", "waypointvisible"],
  before .array .boolean [
    "enableaudiofeature", "isonroad", "leaderboardrequestrowsglobal",
    "leaderboardrequestrowsglobalarounduser", "leaderboardsrequestuploadscore",
    "leaderboardsrequestuploadscorekeepbest", "lineintersects", "menuchecked", "menuenabled",
    "openmap", "params", "preloadcamera", "preloadtitleobj", "preloadtitlersc", "sendudpmessage",
    "set3denattributes", "setinfopanel", "setstatvalue", "simulinclouds", "surfaceiswater",
    "terrainintersect", "terrainintersectasl", "unitready", "waypointforcebehaviour"],
  before .control .number [
    "ctcursel", "ctheadercount", "ctrlautoscrolldelay", "ctrlautoscrollspeed", "ctrlfade",
    "ctrlidc", "ctrlmapscale", "ctrlmodelscale", "ctrlscale", "ctrltextheight", "ctrltype",
    "ctrowcount", "gearslotammocount", "lbcursel", "lbsize", "lnbcurselrow", "nextmenuitemindex",
    "progressposition", "sliderposition"],
  before .number .number [
    "abs", "acos", "admin", "airdensityrtd", "asin", "atan", "atg", "ceil", "cos", "deg", "exp",
    "floor", "gearidcammocount", "getdlcusagetime", "lbcursel", "lbsize", "ln", "lnbcurselrow",
    "log", "rad", "random", "round", "sin", "sliderposition", "sqrt", "tan", "tg"],
  before .string .string [
    "actionkeysimages", "actionkeysnames", "actionname", "getmarkercolor", "getmarkertype", "image",
    "loadfile", "localize", "markerbrush", "markercolor", "markershape", "markertext", "markertype",
    "parsetext", "preprocessfile", "preprocessfilelinenumbers", "text", "tolower", "toupper"],
  before .string .number [
    "count", "debriefingtext", "difficultyoption", "dynamicsimulationdistance",
    "dynamicsimulationdistancecoef", "execfsm", "get3denactionstate", "getcontainermaxload",
    "getstatvalue", "inputaction", "leaderboardstate", "markeralpha", "markerdir", "parsenumber",
    "queryitemspool", "querymagazinepool", "queryweaponpool", "sizeof"],
  before .code .nothing [
    "collect3denhistory", "default", "oncommandmodechanged", "oneachframe", "ongroupiconclick",
    "ongroupiconoverenter", "ongroupiconoverleave", "onhcgroupselectionchanged", "onmapsingleclick",
    "onplayerconnected", "onplayerdisconnected", "onpreloadfinished", "onpreloadstarted",
    "onteamswitch", "waituntil"],
  before .array .object [
    "createagent", "createmine", "createsimpleobject", "createsoundsource", "createtrigger",
    "createvehicle", "nearestbuilding", "nearestobject", "roadat", "ropecreate",
    "waypointattachedobject", "waypointattachedvehicle"],
  before .control .string [
    "buttonaction", "ctrlclassname", "ctrlmodel", "ctrltext", "ctrltextsecondary", "gearslotdata",
    "geteditormode"],
  before .group .boolean [
    "attackenabled", "dynamicsimulationenabled", "isgroupdeletedwhenempty", "isnull", "local"],
  before .number .string ["buttonaction", "ctrltext", "keyimage", "keyname"],
  before .any .nothing ["debuglog", "diag_log", "textlog", "throw"],
  before .boolean .boolean ["assert", "not", "openmap", "showsubtitles"],
  before .config .string ["configname", "configsourcemod", "gettext"],
  before .array .location ["createlocation", "nearestlocation", "nearestlocationwithdubbing"],
  before .group .number ["currentwaypoint", "groupowner", "waypointtimeoutcurrent"],
  before .side .number ["playableslotsnumber", "playersnumber", "scoreside"],
  before .task .string ["taskstate", "tasktype", "type"],
  before .location .number ["direction", "importance"],
  before .config .number ["count", "getnumber"],
  before .group .nothing ["cleargroupicons", "deletegroup"],
  before .string .code ["compile", "compilefinal"],
  before .display .array ["allcontrols", "getfieldmanualstartpage"],
  before .any .switchHelper ["case", "switch"],
  before .side .array ["detectedmines", "listremotetargets"],
  before .object .side ["flagside", "side"],
  before .teamMember .boolean ["fromeditor", "isagent"],
  before .script .boolean ["isnull", "scriptdone"],
  before .config .boolean ["isarray", "isclass", "isnull", "isnumber", "istext"],
  before .group .object ["hcleader", "leader"],
  before .any .string ["str", "typename"],
  before .teamMember .object ["agent"],
  before .location .object ["attachedobject"],
  before .code .anything ["call"],
  before .task .nothing ["cancelsimpletaskdestination"],
  before .side .side ["createcenter"],
  before .side .group ["creategroup"],
  before .array .group ["creategroup"],
  before .array .teamMember ["createteam"],
  before .display .number ["ctrlidd"],
  before .control .display ["ctrlparent"],
  before .control .control ["ctrlparentcontrolsgroup"],
  before .object .task ["currenttask"],
  before .side .nothing ["deletecenter"],
  before .location .nothing ["deletelocation"],
  before .teamMember .nothing ["deleteteam"],
  before .display .display ["displayparent"],
  before .string .script ["execvm"],
  before .number .display ["finddisplay"],
  before .string .forHelper ["for"],
  before .array .forHelper ["for"],
  before .display .boolean ["isnull"],
  before .control .boolean [
    "cbchecked", "ctrlautoscrollrewind", "ctrlchecked", "ctrlcommitted", "ctrldelete",
    "ctrlenabled", "ctrlhtmlloaded", "ctrlmapanimdone", "ctrlshown", "isnull", "isrealtime",
    "isshowing3dicons"],
  before .netObject .boolean ["isnull"],
  before .task .boolean ["isnull", "taskalwaysvisible", "taskcompleted"],
  before .location .boolean ["isnull", "rectangular"],
  before .teamMember .teamMember ["leader"],
  before .boolean .number ["parsenumber"],
  before .any .array ["get3denconnections"],
  before .number .anything ["get3denentity"],
  before .any .number ["get3denentityid"],
  before .control .object ["geteditorcamera"],
  before .string .config ["getmissionconfig"],
  before .string .anything ["getmissionconfigvalue"],
  before .array .anything [
    "create3denentity", "getmissionconfigvalue", "param", "ppeffectcreate", "remoteexec",
    "remoteexeccall", "selectmax", "selectmin", "selectrandom", "selectrandomweighted"],
  before .object .group ["group"],
  before .string .group ["groupfromnetid"],
  before .boolean .ifHelper ["if"],
  before .config .config ["inheritsfrom"],
  before .code .boolean ["isnil"],
  before .string .boolean [
    "buldozer_loadnewroads", "checkaifeature", "createdialog", "deleteidentity", "deletestatus",
    "difficultyenabled", "iskeyactive", "islocalized", "isnil", "leaderboarddeinit",
    "leaderboardinit", "leaderboardrequestrowsfriends", "openyoutubevideo", "ppeffectcommitted",
    "preloadsound", "requiredversion", "screenshot", "servercommand", "servercommandavailable",
    "servercommandexecutable", "unlockachievement", "verifysignature"],
  before .number .boolean [
    "completedfsm", "ctrlenabled", "ctrlvisible", "finite", "isdlcavailable", "opendlcpage",
    "ppeffectcommitted", "ppeffectenabled", "remove3denlayer", "setcurrentchannel"],
  before .string .object ["objectfromnetid"],
  before .task .number ["priority"],
  before .group .side ["side"],
  before .location .side ["side"],
  before .task .task ["taskparent"],
  before .object .teamMember ["teammember"],
  before .script .nothing ["terminate"],
  before .code .tryHelper ["try"],
  before .side .string ["wfsidetext"],
  before .object .string [
    "animationstate", "assignedteam", "backpack", "behaviour", "binocular", "combatmode",
    "currentcommand", "currentmagazine", "currentmuzzle", "currentweapon", "currentweaponmode",
    "face", "faction", "flagtexture", "formation", "formationtask", "getforcedflagtexture",
    "getplayeruid", "goggles", "handgunweapon", "headgear", "hmd", "incapacitatedstate",
    "landresult", "lifestate", "lightison", "mapgridposition", "name", "namesound", "netid",
    "pitch", "primaryweapon", "rank", "roledescription", "secondaryweapon", "speaker", "speedmode",
    "stance", "triggertext", "triggertype", "typeof", "uniform", "unitpos", "vehiclevarname",
    "vest", "wfsidetext"],
  before .array .string [
    "actionkeysimages", "actionkeysnames", "composetext", "creatediarylink", "createmarker",
    "createmarkerlocal", "format", "formattext", "lbdata", "lbpicture", "lbpictureright",
    "lbsettext", "lbtext", "lbtextright", "lnbdata", "lnbpicture", "lnbpictureright", "lnbtext",
    "lnbtextright", "mapgridposition", "menuaction", "menudata", "menupicture", "menushortcuttext",
    "menutext", "menuurl", "surfacetype", "tostring", "tvdata", "tvpicture", "tvpictureright",
    "tvsettext", "tvtext", "tvtooltip", "waypointbehaviour", "waypointcombatmode",
    "waypointdescription", "waypointformation", "waypointloitertype", "waypointname",
    "waypointscript", "waypointshow", "waypointspeed", "waypointtype"],
  before .group .string ["combatmode", "formation", "groupid", "netid", "speedmode", "wfsidetext"],
  before .location .string ["classname", "name", "text", "type"],
  before .teamMember .string ["formation", "teamname", "teamtype"],
  before .code .whileHelper ["while"],
  before .nspace .withHelper ["with"],
  before .object .array [
    "actionids", "aimpos", "animationnames", "assignedcargo", "assigneditems",
    "assignedvehiclerole", "attachedobjects", "backpackcargo", "backpackitems", "backpackmagazines",
    "boundingbox", "boundingboxreal", "boundingcenter", "crew", "curatoraddons",
    "curatorcameraarea", "curatoreditableobjects", "curatoreditingarea", "curatorregisteredobjects",
    "currentmagazinedetail", "currentthrowable", "enginesisonrtd", "enginespowerrtd",
    "enginesrpmrtd", "enginestorquertd", "everybackpack", "everycontainer", "expecteddestination",
    "eyedirection", "eyepos", "formationmembers", "formationposition", "fullcrew",
    "getallhitpointsdamage", "getallownedmines", "getallsoundcontrollers", "getbackpackcargo",
    "getcameraviewdirection", "getcenterofmass", "getdescription", "getenginetargetrpmrtd",
    "getitemcargo", "getmagazinecargo", "getmodelinfo", "getobjectmaterials", "getobjecttextures",
    "getpersonuseddlcs", "getpilotcameradirection", "getpilotcameraposition",
    "getpilotcamerarotation", "getpilotcameratarget", "getplayerscores", "getpos", "getposasl",
    "getposaslvisual", "getposaslw", "getposatl", "getposatlvisual", "getposvisual", "getposworld",
    "getpylonmagazines", "getshotparents", "gettrimoffsetrtd", "getunitloadout", "getusermfdvalue",
    "getvehiclecargo", "getweaponcargo", "groupselectedunits", "handgunitems", "handgunmagazine",
    "hcallgroups", "hcselected", "infopanels", "isautostartupenabledrtd", "itemcargo", "items",
    "itemswithmagazines", "list", "listvehiclesensors", "magazinecargo", "magazines",
    "magazinesallturrets", "magazinesammo", "magazinesammocargo", "magazinesammofull",
    "magazinesdetail", "magazinesdetailbackpack", "magazinesdetailuniform", "magazinesdetailvest",
    "objectcurators", "position", "primaryweaponitems", "primaryweaponmagazine", "roadsconnectedto",
    "ropeattachedobjects", "ropeendposition", "ropes", "rotorsforcesrtd", "rotorsrpmrtd",
    "secondaryweaponitems", "secondaryweaponmagazine", "selectionnames", "simpletasks",
    "soldiermagazines", "squadparams", "synchronizedobjects", "synchronizedwaypoints",
    "taskmarkeroffset", "triggeractivation", "triggerarea", "triggerstatements", "triggertimeout",
    "uavcontrol", "uniformitems", "uniformmagazines", "unitaimposition", "unitaimpositionvisual",
    "vectordir", "vectordirvisual", "vectorup", "vectorupvisual", "velocity", "velocitymodelspace",
    "vestitems", "vestmagazines", "visibleposition", "visiblepositionasl", "waypoints",
    "weaponcargo", "weaponinertia", "weapons", "weaponsitems", "weaponsitemscargo", "weaponstate",
    "weightrtd", "wingsforcesrtd"],
  before .array .nothing [
    "activateaddons", "add3denconnection", "addcamshake", "additempool", "addmagazinepool",
    "addtoremainscollector", "addweaponpool", "aisfinishheal", "buttonsetaction",
    "clear3deninventory", "commandgetout", "commandstop", "creategeardialog", "createguardedpoint",
    "ctrlenable", "ctrlsettext", "ctrlshow", "cutobj", "cutrsc", "cuttext", "delete3denentities",
    "deletewaypoint", "diag_captureslowframe", "diag_logslowframe", "dogetout", "dostop",
    "drawicon3d", "drawline3d", "drop", "enabledebriefingstats", "enableenvironment",
    "enablesaving", "hostmission", "ingameuiseteventhandler", "lbdelete", "lbsetcolor",
    "lbsetcolorright", "lbsetcursel", "lbsetdata", "lbsetpicture", "lbsetpicturecolor",
    "lbsetpicturecolordisabled", "lbsetpicturecolorselected", "lbsetpictureright",
    "lbsetselectcolor", "lbsetselectcolorright", "lbsettooltip", "lbsetvalue", "lnbdeletecolumn",
    "lnbdeleterow", "lnbsetcolor", "lnbsetcolorright", "lnbsetcolumnspos", "lnbsetcurselrow",
    "lnbsetdata", "lnbsetpicture", "lnbsetpicturecolor", "lnbsetpicturecolorright",
    "lnbsetpicturecolorselected", "lnbsetpicturecolorselectedright", "lnbsetpictureright",
    "lnbsettext", "lnbsettextright", "lnbsetvalue", "lnbsort", "lnbsortbyvalue", "mapanimadd",
    "menucollapse", "menudelete", "menuenable", "menuexpand", "menusetaction", "menusetcheck",
    "menusetdata", "menusetpicture", "menusetvalue", "menusort", "move3dencamera", "playmission",
    "playscriptedmission", "playsound3d", "remove3denconnection", "remove3deneventhandler",
    "removefromremainscollector", "removemissioneventhandler", "removemusiceventhandler", "reverse",
    "ropecut", "ropeunwind", "save3deninventory", "sendaumessage", "set3dengrid",
    "set3deniconsvisible", "set3denlinesvisible", "set3denmissionattributes",
    "set3denmodelsvisible", "set3denselected", "setaperturenew", "setcamshakedefparams",
    "setcamshakeparams", "setcompassoscillation", "setdate", "setdefaultcamera",
    "setdetailmapblendpars", "setgroupiconsvisible", "sethudmovementlevels", "setlocalwindparams",
    "setmouseposition", "setmusiceventhandler", "settrafficdensity", "settrafficgap",
    "settrafficspeed", "setwind", "setwinddir", "showhud", "slidersetposition", "slidersetrange",
    "slidersetspeed", "startloadingscreen", "taskhint", "textlogformat", "titlecut", "titleobj",
    "titlersc", "titletext", "tvcollapse", "tvdelete", "tvexpand", "tvsetcursel", "tvsetdata",
    "tvsetpicture", "tvsetpicturecolor", "tvsetpictureright", "tvsetpicturerightcolor",
    "tvsettooltip", "tvsetvalue", "tvsort", "tvsortbyvalue"],
  before .array .array [
    "agltoasl", "allsimpleobjects", "allturrets", "asltoagl", "asltoatl", "atltoasl",
    "configproperties", "create3dencomposition", "diag_codeperformance", "forceatpositionrtd",
    "fullcrew", "getallenvsoundcontrollers", "getartilleryammo", "getunitloadout", "getwppos",
    "infopanels", "lbcolor", "lbcolorright", "lineintersectsobjs", "lineintersectssurfaces",
    "lineintersectswith", "lnbcolor", "lnbcolorright", "modparams", "nearestlocations",
    "nearestobjects", "nearestterrainobjects", "numbertodate", "positioncameratoworld",
    "screentoworld", "selectbestplaces", "surfacenormal", "synchronizedtriggers",
    "synchronizedwaypoints", "terrainintersectatasl", "vectornormalized", "waypointposition",
    "waypointstatements", "waypointtimeout", "weaponstate", "worldtoscreen"],
  before .string .array [
    "actionkeys", "actionkeysnamesarray", "allmissionobjects", "entities", "get3denselected",
    "getdlcassetsusagebyname", "getmarkerpos", "getmarkersize", "getmissionlayerentities",
    "getunitloadout", "infopanel", "leaderboardgetrows", "markerpos", "markersize",
    "parsesimplearray", "supportinfo", "toarray", "unitaddons"],
  before .config .array [
    "confighierarchy", "configsourceaddonlist", "configsourcemodlist", "getarray",
    "getunitloadout"],
  before .array .array ["actionkeysnamesarray", "entities"],
  before .string .nothing [
    "activatekey", "breakout", "breakto", "comment", "copytoclipboard", "deactivatekey",
    "deletemarker", "deletemarkerlocal", "diag_dynamicsimulationend", "dissolveteam",
    "do3denaction", "echo", "edit3denmissionattributes", "endmission", "exportjipmessages",
    "failmission", "get3dengrid", "goto", "hint", "hintc", "hintcadet", "hintsilent",
    "onbriefinggroup", "onbriefingnotes", "onbriefingplan", "onbriefingteamswitch",
    "oncommandmodechanged", "oneachframe", "ongroupiconclick", "ongroupiconoverenter",
    "ongroupiconoverleave", "onhcgroupselectionchanged", "onmapsingleclick", "onplayerconnected",
    "onplayerdisconnected", "onpreloadfinished", "onpreloadstarted", "onteamswitch", "playmusic",
    "playsound", "private", "processdiarylink", "publicvariable", "publicvariableserver",
    "removeall3deneventhandlers", "removeallmissioneventhandlers", "removeallmusiceventhandlers",
    "savevar", "scopename", "scriptname", "setstaminascheme", "showcommandingmenu", "systemchat"],
  before .string .nothing ["hint", "hintcadet", "hintsilent"],
  before .control .array [
    "allvariables", "ctaddheader", "ctaddrow", "ctrlangle", "ctrlmapmouseover", "ctrlmodeldirandup",
    "ctrlposition", "lbselection", "lnbgetcolumnsposition", "lnbsize", "mapcenteroncamera",
    "menuhover", "sliderrange", "sliderspeed"],
  before .number .array [
    "channelenabled", "forcegeneratorrtd", "get3denlayerentities", "getdlcs",
    "getmissionlayerentities", "lnbgetcolumnsposition", "lnbsize", "menuhover", "sliderrange",
    "sliderspeed", "tvcursel"],
  before .teamMember .array [
    "allvariables", "currenttasks", "members", "registeredtasks", "resources"],
  before .nspace .array ["allvariables"],
  before .control .array ["tvcursel"],
  before .control .nothing [
    "clearoverlay", "closeoverlay", "collapseobjecttree", "commitoverlay", "ctclear",
    "ctrlactivate", "ctrlmapanimclear", "ctrlmapanimcommit", "ctrlsetfocus", "importallgroups",
    "lbclear", "lbsort", "lbsortbyvalue", "lnbclear", "menuclear", "restarteditorcamera",
    "saveoverlay", "selectededitorobjects", "updateobjecttree"],
  before .number .nothing [
    "airportside", "closedialog", "diag_captureframe", "diag_captureframetofile",
    "estimatedtimeleft", "lbclear", "lbsortbyvalue", "lnbclear", "lognetworkterminate", "menuclear",
    "ppeffectdestroy", "progressloadingscreen", "setacctime", "setaperture", "setarmorypoints",
    "sethorizonparallaxcoef", "setobjectviewdistance", "setplayerrespawntime", "setshadowdistance",
    "setsimulweatherlayers", "setsystemofunits", "setterraingrid", "settimemultiplier",
    "settrafficdistance", "setviewdistance", "showscoretable", "skiptime", "sleep", "titlefadeout",
    "tofixed", "tvclear", "tvcollapseall", "tvexpandall", "uisleep"],
  before .array .nothing [
    "lbsort", "playmusic", "playsound", "ppeffectdestroy", "private", "setobjectviewdistance"],
  before .control .nothing ["tvclear", "tvcollapseall", "tvexpandall"],
  before .number .nothing ["lbsort"],
  before .task .array [
    "taskchildren", "taskcustomdata", "taskdescription", "taskdestination", "taskresult"],
  before .location .array ["getpos", "locationposition", "position", "size"],
  before .group .array ["getgroupiconparams", "getgroupicons", "units", "waypoints"],
  before .object .array ["allturrets", "allvariables", "units"],
  before .group .array ["allvariables"],
  before .task .array ["allvariables"],
  before .location .array ["allvariables"]]

end ArmaScript.Catalogue
