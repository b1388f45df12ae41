import ArmaScript.Signature.Catalogue.Row

/-!
# Commands with two operands

The commands by the kinds of their operands and result. Those of one keyword stand in the order in
which they are tried.
-/

namespace ArmaScript.Catalogue

def binaries : List Signature := List.flatten [
  between .control .array .string [
    "addeditorobject", "findeditorobject", "getobjectargument", "inserteditorobject", "lnbdata",
    "lnbpicture", "lnbpictureright", "lnbtext", "lnbtextright", "menuaction", "menudata",
    "menupicture", "menushortcuttext", "menutext", "menuurl", "tvdata", "tvpicture",
    "tvpictureright", "tvtext", "tvtooltip"],
  between .object .string .number [
    "ammo", "ammoonpylon", "animationphase", "animationsourcephase", "curatorcoef", "doorphase",
    "emptypositions", "gethit", "gethitpointdamage", "getsoundcontroller", "getspeed", "skill",
    "skillfinal"],
  between .control .array .number [
    "addmenu", "addmenuitem", "ctrladdeventhandler", "lnbaddrow", "lnbvalue", "menuadd",
    "menushortcut", "menusize", "menuvalue", "tvadd", "tvcount", "tvvalue"],
  between .control .boolean .nothing [
    "allow3dmode", "allowfileoperations", "cbsetchecked", "ctrlenable", "ctrlsetautoscrollrewind",
    "ctrlsetchecked", "ctrlshow", "mapcenteroncamera", "show3dicons", "showlegend"],
  between .object .string .array [
    "backpackspacefor", "get3denattribute", "getcompatiblepylonmagazines", "infopanelcomponents",
    "isvehiclesensorenabled", "selectionposition", "weaponaccessories", "weapondirection"],
  between .object .number .array [
    "actionparams", "buildingexit", "buildingpos", "getcompatiblepylonmagazines", "nearentities",
    "nearobjects", "nearroads", "nearsupplies", "neartargets"],
  between .object .array .array [
    "getpos", "getrelpos", "magazinesturret", "modeltoworld", "modeltoworldvisual",
    "modeltoworldvisualworld", "modeltoworldworld", "nearentities", "nearobjects", "nearsupplies",
    "selectionposition", "targets", "targetsquery", "vectormodeltoworld",
    "vectormodeltoworldvisual", "vectorworldtomodel", "vectorworldtomodelvisual",
    "weaponaccessoriescargo", "weaponsturret", "worldtomodel", "worldtomodelvisual"],
  between .object .object .number [
    "distance", "distance2d", "distancesqr", "getcargoindex", "getdir", "getreldir", "knowsabout"],
  between .object .array .number [
    "addaction", "addeventhandler", "addmpeventhandler", "aimedattarget", "countenemy",
    "countfriendly", "countunknown", "creatediarysubject", "distance", "distance2d", "distancesqr",
    "getartilleryeta", "getdir", "getreldir", "magazineturretammo", "turretowner"],
  between .string .number .nothing [
    "ppeffectcommit", "setdynamicsimulationdistance", "setdynamicsimulationdistancecoef",
    "setmarkeralpha", "setmarkeralphalocal", "setmarkerdir", "setmarkerdirlocal"],
  between .control .array .array [
    "ctrlmapscreentoworld", "ctrlmapworldtoscreen", "lnbcolor", "lnbcolorright", "posscreentoworld",
    "posworldtoscreen"],
  between .control .number .string [
    "ctdata", "lbdata", "lbpicture", "lbpictureright", "lbtext", "lbtextright"],
  between .control .number .array [
    "ctfindheaderrows", "ctheadercontrols", "ctrowcontrols", "lbcolor", "lbcolorright"],
  between .number .number .number ["atan2", "max", "min", "mod", "random"],
  between .any .array .boolean [
    "in", "isequaltypeany", "isequaltypeparams", "params", "set3denattribute"],
  between .object .object .boolean [
    "canslingload", "connectterminaltouav", "in", "inarea", "moveinany", "setpilotcameratarget",
    "setslingload", "setvehiclecargo"],
  between .string .array .object ["camcreate", "createsite", "createvehicle", "createvehiclelocal"],
  between .string .array .number ["counttype", "cutobj", "cutrsc", "cuttext"],
  between .array .object .number ["distance", "distance2d", "distancesqr", "getdir"],
  between .array .array .number [
    "checkvisibility", "distance", "distance2d", "distancesqr", "getdir", "vectorcos",
    "vectordistance", "vectordistancesqr", "vectordotproduct"],
  between .control .config .nothing [
    "ctsetheadertemplate", "ctsetrowtemplate", "loadoverlay", "newoverlay"],
  between .object .number .boolean [
    "lockedcargo", "nearobjectsready", "setfeaturetype", "setowner"],
  between .number .string .nothing [
    "publicvariableclient", "radiochannelsetcallsign", "radiochannelsetlabel", "setradiomsg"],
  between .object .array .string [
    "currentmagazinedetailturret", "currentmagazineturret", "currentweaponturret"],
  between .code .teamMember .nothing ["foreachmember", "foreachmemberagent", "foreachmemberteam"],
  between .display .array .nothing [
    "displayremoveeventhandler", "displayseteventhandler", "setvariable"],
  between .control .array .nothing [
    "ctremoveheaders", "ctremoverows", "ctrlmapanimadd", "ctrlmapcursor", "ctrlremoveeventhandler",
    "ctrlsetactivecolor", "ctrlsetangle", "ctrlsetbackgroundcolor", "ctrlsetchecked",
    "ctrlsetdisabledcolor", "ctrlseteventhandler", "ctrlsetforegroundcolor", "ctrlsetmodeldirandup",
    "ctrlsetposition", "ctrlsettextcolor", "ctrlsettextcolorsecondary", "ctrlsettooltipcolorbox",
    "ctrlsettooltipcolorshade", "ctrlsettooltipcolortext", "ctsetdata", "ctsetvalue", "drawarrow",
    "drawellipse", "drawicon", "drawline", "drawlink", "drawpolygon", "drawrectangle",
    "drawtriangle", "editorseteventhandler", "lbsetcolor", "lbsetcolorright", "lbsetdata",
    "lbsetpicture", "lbsetpicturecolor", "lbsetpicturecolordisabled", "lbsetpicturecolorselected",
    "lbsetpictureright", "lbsetpicturerightcolor", "lbsetpicturerightcolordisabled",
    "lbsetpicturerightcolorselected", "lbsetselectcolor", "lbsetselectcolorright", "lbsetselected",
    "lbsettext", "lbsettextright", "lbsettooltip", "lbsetvalue", "lnbsetcolor", "lnbsetcolorright",
    "lnbsetcolumnspos", "lnbsetdata", "lnbsetpicture", "lnbsetpicturecolor",
    "lnbsetpicturecolorright", "lnbsetpicturecolorselected", "lnbsetpicturecolorselectedright",
    "lnbsetpictureright", "lnbsettext", "lnbsettextright", "lnbsetvalue", "lnbsort",
    "lnbsortbyvalue", "lookatpos", "menucollapse", "menudelete", "menuenable", "menuexpand",
    "menusetaction", "menusetcheck", "menusetdata", "menusetpicture", "menusetvalue", "menusort",
    "removedrawicon", "removedrawlinks", "setdrawicon", "seteditorobjectscope", "setvariable",
    "setvisibleiftreecollapsed", "slidersetrange", "slidersetspeed", "tvcollapse", "tvdelete",
    "tvexpand", "tvsetcolor", "tvsetcursel", "tvsetdata", "tvsetpicture", "tvsetpicturecolor",
    "tvsetpicturecolordisabled", "tvsetpicturecolorselected", "tvsetpictureright",
    "tvsetpicturerightcolor", "tvsetpicturerightcolordisabled", "tvsetpicturerightcolorselected",
    "tvsetselectcolor", "tvsettext", "tvsettooltip", "tvsetvalue", "tvsort", "tvsortbyvalue",
    "updatedrawicon", "updatemenuitem"],
  between .teamMember .teamMember .nothing ["addteammember", "removeteammember", "setleader"],
  between .object .object .array ["canvehiclecargo", "gethidefrom", "targetknowledge"],
  between .array .any .number ["find", "pushback", "pushbackunique"],
  between .forHelper .number .forHelper ["from", "step", "to"],
  between .any .array .anything ["param", "remoteexec", "remoteexeccall"],
  between .object .number .number ["ammoonpylon", "gethitindex"],
  between .location .location .number ["distance", "distancesqr"],
  between .location .array .number ["distance", "distancesqr"],
  between .array .location .number ["distance", "distancesqr"],
  between .display .string .display ["createdisplay", "createmissiondisplay"],
  between .display .string .nothing ["creatempcampaigndisplay", "displayremovealleventhandlers"],
  between .boolean .boolean .boolean ["and", "or"],
  between .boolean .code .boolean ["and", "or"],
  between .teamMember .array .task ["createtask", "sendtask"],
  between .array .number .anything ["deleteat", "select"],
  between .string .boolean .nothing ["enableaifeature", "ppeffectenable"],
  between .array .boolean .nothing [
    "allowgetin", "ordergetin", "ppeffectenable", "setwaypointforcebehaviour", "setwaypointvisible",
    "sort"],
  between .number .boolean .nothing [
    "debugfsm", "enablechannel", "ppeffectenable", "ppeffectforceinnvg"],
  between .ifHelper .code .anything ["exitwith", "then"],
  between .control .string .array ["getobjectchildren", "listobjects"],
  between .any .any .boolean ["isequalto", "isequaltype"],
  between .object .side .boolean ["issensortargetconfirmed", "minedetectedby"],
  between .control .string .number ["lbadd", "nmenuitems"],
  between .control .number .number [
    "ctfindrowheader", "ctvalue", "lbvalue", "lnbaddcolumn", "nmenuitems"],
  between .control .array .boolean ["menuchecked", "menuenabled"],
  between .group .number .array ["getgroupicon", "unitsbelowheight"],
  between .array .number .array [
    "nearentities", "nearobjects", "nearroads", "nearsupplies", "unitsbelowheight",
    "vectormultiply"],
  between .string .string .boolean ["iskindof", "servercommand"],
  between .teamMember .string .boolean ["registertask", "unregistertask"],
  between .object .task .nothing ["removesimpletask", "setcurrenttask"],
  between .side .array .nothing ["reportremotetarget", "setfriend"],
  between .object .side .nothing ["setairportside", "setflagside"],
  between .location .number .nothing ["setdirection", "setimportance"],
  between .task .string .nothing ["setsimpletasktype", "settaskstate"],
  between .control .any .string ["findeditorobject"],
  between .display .array .display ["createmissiondisplay"],
  between .number .string .number ["add3denlayer"],
  between .group .array .number ["addgroupicon"],
  between .string .code .nothing ["addpublicvariableeventhandler"],
  between .side .number .nothing ["addscoreside"],
  between .group .array .array ["addwaypoint"],
  between .location .object .nothing ["attachobject"],
  between .any .string .anything ["breakout"],
  between .any .code .anything ["call"],
  between .string .string .string ["callextension"],
  between .string .array .array ["callextension"],
  between .tryHelper .code .anything ["catch"],
  between .display .number .nothing ["closedisplay"],
  between .string .config .array ["configclasses"],
  between .control .number .control ["controlsgroupctrl"],
  between .group .group .nothing ["copywaypoints"],
  between .code .array .number ["count"],
  between .side .array .number ["countside"],
  between .object .array .diaryReport ["creatediaryrecord"],
  between .object .array .task ["createsimpletask"],
  between .display .array .control ["ctrlcreate"],
  between .string .number .number ["cutfadeout"],
  between .number .number .nothing [
    "cutfadeout", "fademusic", "faderadio", "fadesound", "fadespeech", "ppeffectcommit", "setfog",
    "setgusts", "setlightnings", "setovercast", "setrain", "setrainbow", "setwaves", "setwinddir",
    "setwindforce", "setwindstr"],
  between .display .array .number ["displayaddeventhandler"],
  between .display .number .control ["displayctrl"],
  between .whileHelper .code .nothing ["do"],
  between .withHelper .code .nothing ["do"],
  between .forHelper .code .anything ["do"],
  between .switchHelper .code .anything ["do"],
  between .control .location .nothing ["drawlocation"],
  between .code .code .array ["else"],
  between .object .boolean .boolean ["enableautotrimrtd"],
  between .any .string .number ["execfsm"],
  between .any .string .script ["execvm"],
  between .string .string .number ["find"],
  between .object .object .object ["findnearestenemy"],
  between .object .array .object ["findcover", "findnearestenemy", "turretunit"],
  between .code .array .nothing ["foreach"],
  between .group .string .array ["get3denattribute"],
  between .group .object .number ["knowsabout"],
  between .side .object .number ["knowsabout"],
  between .array .object .boolean ["inarea"],
  between .array .number .boolean ["nearobjectsready"],
  between .string .string .anything ["get3denmissionattribute"],
  between .control .string .string ["geteditorobjectscope"],
  between .array .string .number ["getenvsoundcontroller"],
  between .side .side .number ["getfriend"],
  between .number .string .anything ["getfsmvariable"],
  between .number .array .anything ["getfsmvariable"],
  between .control .string .object ["getobjectproxy"],
  between .object .config .number ["getsoundcontrollerresult"],
  between .display .string .anything ["getvariable"],
  between .display .array .anything ["getvariable"],
  between .control .string .anything [
    "deleteeditorobject", "editobject", "getvariable", "ondoubleclick", "onshownewobject",
    "selecteditorobject"],
  between .control .array .anything [
    "evalobjectargument", "execeditorscript", "getvariable", "setobjectarguments", "setobjectproxy",
    "showneweditorobject"],
  between .object .string .anything ["getunittrait", "getvariable"],
  between .object .array .anything ["getvariable"],
  between .group .string .anything ["getvariable"],
  between .group .array .anything ["create3denentity", "getvariable"],
  between .nspace .string .anything ["getvariable"],
  between .nspace .array .anything ["getvariable"],
  between .teamMember .string .anything ["getvariable"],
  between .teamMember .array .anything ["getvariable"],
  between .task .string .anything ["getvariable"],
  between .task .array .anything ["getvariable"],
  between .location .string .anything ["getvariable"],
  between .location .array .anything ["getvariable"],
  between .object .group .array ["hcgroupparams"],
  between .object .group .nothing ["hcremovegroup"],
  between .array .object .array ["inareaarray"],
  between .array .string .array ["get3denattribute", "inareaarray", "infopanelcomponents"],
  between .string .string .array ["get3denattribute", "getcompatiblepylonmagazines", "splitstring"],
  between .number .string .array ["get3denattribute"],
  between .string .number .array ["getcompatiblepylonmagazines"],
  between .array .any .boolean ["isequaltypeall"],
  between .string .array .boolean ["iskindof"],
  between .object .string .boolean [
    "canadd", "canadditemtobackpack", "canadditemtouniform", "canadditemtovest",
    "diarysubjectexists", "hasweapon", "inarea", "isflashlighton", "isirlaseron", "iskindof",
    "isuniformallowed", "kbadddatabase", "kbadddatabasetargets", "kbhastopic", "loadidentity",
    "loadstatus", "saveidentity", "savestatus"],
  between .array .string .boolean ["inarea"],
  between .object .array .boolean [
    "canadd", "canadditemtobackpack", "canadditemtouniform", "canadditemtovest",
    "enableinfopanelcomponent", "fireattarget", "inarea", "infopanelcomponentenabled",
    "isuavconnectable", "kbwassaid", "lockedturret", "setpilotcameratarget", "setpylonloadout",
    "setvehicleposition", "setweaponreloadingtime", "turretlocal"],
  between .array .array .boolean [
    "enableinfopanelcomponent", "findemptypositionready", "inarea", "infopanelcomponentenabled",
    "inpolygon", "inrangeofartillery", "isequaltypearray"],
  between .object .location .boolean ["inarea"],
  between .array .location .boolean ["in", "inarea"],
  between .array .string .string ["joinstring"],
  between .control .number .boolean ["lbisselected"],
  between .array .string .object ["nearestobject"],
  between .array .number .object ["nearestobject"],
  between .any .code .nothing ["onmapsingleclick"],
  between .any .string .nothing ["clear3denattribute", "exec", "onmapsingleclick"],
  between .number .object .boolean ["preloadobject"],
  between .number .string .boolean ["preloadobject"],
  between .number .side .nothing ["setairportside"],
  between .number .array .number ["random"],
  between .side .object .nothing ["revealmine"],
  between .array .boolean .anything ["select"],
  between .array .array .array [
    "arrayintersect", "findemptyposition", "getpos", "inareaarray", "intersect", "isflatempty",
    "nearentities", "nearobjects", "nearsupplies", "select", "targetsaggregate", "vectoradd",
    "vectorcrossproduct", "vectordiff", "vectorfromto"],
  between .array .location .array ["inareaarray"],
  between .array .array .anything ["selectrandomweighted"],
  between .any .number .boolean ["set3denlayer"],
  between .boolean .number .nothing ["setcamuseti"],
  between .teamMember .boolean .nothing ["setfromeditor"],
  between .group .number .boolean ["setgroupowner"],
  between .location .boolean .nothing ["setrectangular"],
  between .location .side .nothing ["setside"],
  between .task .boolean .nothing ["setsimpletaskalwaysvisible"],
  between .any .code .script ["spawn"],
  between .ifHelper .array .anything ["then"],
  between .ifHelper .any .nothing ["throw"],
  between .number .number .string ["tofixed"],
  between .any .code .tryHelper ["try"],
  between .object .string .nothing [
    "addbackpack", "addbackpackglobal", "addgoggles", "addhandgunitem", "addheadgear", "additem",
    "additemtobackpack", "additemtouniform", "additemtovest", "addmagazine", "addmagazineglobal",
    "addprimaryweaponitem", "addsecondaryweaponitem", "adduniform", "addvest", "addweapon",
    "addweaponglobal", "assignitem", "assignteam", "camcommand", "commandchat", "commandradio",
    "directsay", "disableai", "enableai", "enablegunlights", "fire", "forceadduniform",
    "forceflagtexture", "globalchat", "globalradio", "groupchat", "groupradio", "kbremovetopic",
    "land", "linkitem", "playaction", "playactionnow", "playgesture", "playmove", "playmovenow",
    "removealleventhandlers", "removeallmpeventhandlers", "removehandgunitem", "removeitem",
    "removeitemfrombackpack", "removeitemfromuniform", "removeitemfromvest", "removeitems",
    "removemagazine", "removemagazineglobal", "removemagazines", "removeprimaryweaponitem",
    "removesecondaryweaponitem", "removeweapon", "removeweaponglobal", "say", "say2d", "say3d",
    "selectdiarysubject", "selectweapon", "sendsimplecommand", "setbehaviour", "setcombatmode",
    "seteffectcondition", "setface", "setflagtexture", "setformation", "setformationtask",
    "setidentity", "setmimic", "setmusiceffect", "setname", "setnamesound", "setparticleclass",
    "setrank", "setspeaker", "setspeedmode", "settargetage", "settriggertext", "settriggertype",
    "setunitpos", "setunitposweak", "setunitrank", "setvehiclelock", "setvehiclevarname",
    "sidechat", "sideradio", "switchaction", "switchcamera", "switchgesture", "switchlight",
    "switchmove", "unassignitem", "unlinkitem", "vehiclechat", "vehicleradio"],
  between .array .string .nothing [
    "commandchat", "commandradio", "say", "say2d", "say3d", "set3denlogictype", "set3denobjecttype",
    "seteffectcondition", "setmusiceffect", "setwaypointbehaviour", "setwaypointcombatmode",
    "setwaypointdescription", "setwaypointformation", "setwaypointloitertype", "setwaypointname",
    "setwaypointscript", "setwaypointspeed", "setwaypointtype", "showwaypoint", "sidechat",
    "sideradio"],
  between .group .string .nothing [
    "enablegunlights", "setbehaviour", "setcombatmode", "setformation", "setspeedmode"],
  between .teamMember .string .nothing ["setcombatmode", "setformation"],
  between .object .boolean .nothing [
    "allowcrewinimmobile", "allowcuratorlogicignoreareas", "allowdamage", "allowdammage",
    "allowsprint", "disableconversation", "disablenvgequipment", "disabletiequipment",
    "enableaimprecision", "enableattack", "enableautostartuprtd", "enablecopilot",
    "enabledynamicsimulation", "enablefatigue", "enableirlasers", "enablemimics", "enablereload",
    "enableropeattach", "enablesimulation", "enablesimulationglobal", "enablestamina",
    "enableuavwaypoints", "enablevehiclecargo", "enableweapondisassembly", "engineon",
    "forcefollowroad", "forcewalk", "hideobject", "hideobjectglobal", "inflame", "lock",
    "lockdriver", "lockwp", "setautonomous", "setcaptive", "setcollisionlight",
    "setcuratoreditingareatype", "setlightdaylight", "setlightuseflare", "setpilotlight",
    "setrandomlip", "setunconscious", "setvehiclereceiveremotetargets",
    "setvehiclereportownposition", "setvehiclereportremotetargets", "stop",
    "triggerdynamicsimulation", "useaudiotimeformoves"],
  between .group .boolean .nothing [
    "deletegroupwhenempty", "enableattack", "enabledynamicsimulation", "enableirlasers", "lockwp"],
  between .control .string .nothing [
    "buttonsetaction", "ctrlremovealleventhandlers", "ctrlsetfont", "ctrlsetfonth1",
    "ctrlsetfonth1b", "ctrlsetfonth2", "ctrlsetfonth2b", "ctrlsetfonth3", "ctrlsetfonth3b",
    "ctrlsetfonth4", "ctrlsetfonth4b", "ctrlsetfonth5", "ctrlsetfonth5b", "ctrlsetfonth6",
    "ctrlsetfonth6b", "ctrlsetfontp", "ctrlsetfontpb", "ctrlsetfontsecondary", "ctrlsetmodel",
    "ctrlsetstructuredtext", "ctrlsettext", "ctrlsettextsecondary", "ctrlsettooltip", "htmlload",
    "moveobjecttoend", "seteditormode"],
  between .control .number .nothing [
    "createmenu", "ctrlchecked", "ctrlcommit", "ctrlsetautoscrolldelay", "ctrlsetautoscrollspeed",
    "ctrlsetfade", "ctrlsetfontheight", "ctrlsetfontheighth1", "ctrlsetfontheighth2",
    "ctrlsetfontheighth3", "ctrlsetfontheighth4", "ctrlsetfontheighth5", "ctrlsetfontheighth6",
    "ctrlsetfontheightsecondary", "ctrlsetfontp", "ctrlsetmodelscale", "ctrlsetscale",
    "ctsetcursel", "lbdelete", "lbsetcursel", "lnbdeletecolumn", "lnbdeleterow", "lnbsetcurselrow",
    "progresssetposition", "removemenuitem", "slidersetposition"],
  between .control .string .nothing ["removemenuitem"],
  between .object .number .nothing [
    "addcuratorpoints", "addlivestats", "addrating", "addscore", "allowfleeing", "camcommit",
    "camcommitprepared", "campreload", "campreparebank", "campreparedir", "campreparedive",
    "campreparefov", "camsetbank", "camsetdive", "camsetfov", "flyinheight", "forcespeed",
    "limitspeed", "lock", "removeaction", "removecuratorcameraarea", "removecuratoreditingarea",
    "setactualcollectivertd", "setairplanethrottle", "setammocargo", "setanimspeedcoef",
    "setbleedingremaining", "setcamerainterest", "setcaptive", "setconvoyseparation",
    "setcuratorcameraareaceiling", "setcuratorwaypointcost", "setcustomaimcoef",
    "setcustomweightrtd", "setdamage", "setdammage", "setdir", "setdropinterval",
    "setfaceanimation", "setfatigue", "setflaganimationphase", "setformdir", "setfuel",
    "setfuelcargo", "setlightbrightness", "setlightflaremaxdistance", "setlightflaresize",
    "setlightintensity", "setmass", "setoxygenremaining", "setpitch", "setrepaircargo",
    "setrotorbrakertd", "setstamina", "setsuppression", "setunitability",
    "setunitrecoilcoefficient", "setvehicleammo", "setvehicleammodef", "setvehiclearmor",
    "setvehicleid", "setvehicleradar", "suppressfor", "swimindepth", "triggerattachobject"],
  between .group .number .nothing ["allowfleeing", "removegroupicon", "setformdir"],
  between .object .array .nothing [
    "action", "addbackpackcargo", "addbackpackcargoglobal", "addcuratoraddons",
    "addcuratorcameraarea", "addcuratoreditableobjects", "addcuratoreditingarea", "addforce",
    "additemcargo", "additemcargoglobal", "addmagazine", "addmagazineammocargo", "addmagazinecargo",
    "addmagazinecargoglobal", "addmagazines", "addmagazineturret", "addplayerscores", "addtorque",
    "addweaponcargo", "addweaponcargoglobal", "addweaponitem", "addweaponturret", "animate",
    "animatebay", "animatedoor", "animatepylon", "animatesource", "assignascargoindex",
    "assignasturret", "attachto", "camconstuctionsetparams", "cameraeffect", "campreparefocus",
    "campreparefovrange", "campreparepos", "campreparerelpos", "camsetdir", "camsetfocus",
    "camsetfovrange", "camsetpos", "camsetrelpos", "commandartilleryfire", "commandfsm",
    "commandmove", "commandwatch", "confirmsensortarget", "customchat", "customradio",
    "disableuavconnectability", "doartilleryfire", "dofsm", "domove", "dowatch",
    "enablepersonturret", "enableuavconnectability", "enablevehiclesensor", "fire",
    "flyinheightasl", "forceweaponfire", "groupselectunit", "hcselectgroup", "hcsetgroup",
    "hideselection", "joinas", "joinassilent", "kbaddtopic", "kbreact", "kbtell",
    "lightattachobject", "loadmagazine", "lockcamerato", "lockcargo", "lockturret", "move",
    "moveinturret", "moveto", "removecuratoraddons", "removecuratoreditableobjects",
    "removeeventhandler", "removemagazine", "removemagazinesturret", "removemagazineturret",
    "removempeventhandler", "removeweaponattachmentcargo", "removeweaponcargo",
    "removeweaponturret", "respawnvehicle", "say", "say2d", "say3d", "selectweaponturret",
    "setammo", "setammoonpylon", "setbrakesrtd", "setcenterofmass", "setcuratorcoef", "setdamage",
    "setdestination", "setdriveonpath", "setenginerpmrtd", "setgroupid", "setgroupidglobal",
    "sethidebehind", "sethit", "sethitindex", "sethitpointdamage", "setlightambient",
    "setlightattenuation", "setlightcolor", "setmagazineturretammo", "setmass", "setname",
    "setobjectmaterial", "setobjectmaterialglobal", "setobjecttexture", "setobjecttextureglobal",
    "setparticlecircle", "setparticlefire", "setparticleparams", "setparticlerandom",
    "setpilotcameradirection", "setpilotcamerarotation", "setpos", "setposasl", "setposasl2",
    "setposaslw", "setposatl", "setposworld", "setpylonspriority", "setshotparents", "setskill",
    "setsoundeffect", "settaskmarkeroffset", "settitleeffect", "settriggeractivation",
    "settriggerarea", "settriggerstatements", "settriggertimeout", "setunitloadout", "setunittrait",
    "setunloadincombat", "setuseractiontext", "setusermfdvalue", "setvariable", "setvectordir",
    "setvectordirandup", "setvectorup", "setvehicletipars", "setvelocity", "setvelocitymodelspace",
    "setvelocitytransformation", "setwantedrpmrtd", "setwingforcescalertd", "synchronizeobjectsadd",
    "synchronizeobjectsremove", "synchronizetrigger", "triggerattachvehicle"],
  between .location .string .nothing ["setname", "setspeech", "settext", "settype"],
  between .object .boolean .nothing ["lockcargo"],
  between .object .string .nothing ["setunitloadout"],
  between .object .config .nothing ["setunitloadout"],
  between .object .object .nothing [
    "addownedmine", "assignascargo", "assignascommander", "assignasdriver", "assignasgunner",
    "assigncurator", "assigntoairport", "campreparetarget", "camsettarget", "commandfire",
    "commandfollow", "commandsuppressivefire", "commandtarget", "deletevehiclecrew",
    "disablecollisionwith", "dofire", "dofollow", "dosuppressivefire", "dotarget",
    "enablecollisionwith", "forgettarget", "glanceat", "landat", "leavevehicle", "lookat",
    "moveincargo", "moveincommander", "moveindriver", "moveingunner", "remotecontrol",
    "removeownedmine", "reveal", "ropedetach", "setflagowner"],
  between .group .object .nothing [
    "addvehicle", "forgettarget", "leavevehicle", "reveal", "selectleader"],
  between .object .number .nothing ["assigntoairport", "landat", "setskill"],
  between .string .string .nothing [
    "hintc", "objstatus", "setmarkerbrush", "setmarkerbrushlocal", "setmarkercolor",
    "setmarkercolorlocal", "setmarkershape", "setmarkershapelocal", "setmarkertext",
    "setmarkertextlocal", "setmarkertype", "setmarkertypelocal"],
  between .string .string .nothing ["hintc"],
  between .string .array .nothing [
    "addpublicvariableeventhandler", "createunit", "hintc", "ppeffectadjust",
    "set3denmissionattribute", "setdebriefingtext", "setmarkerpos", "setmarkerposlocal",
    "setmarkersize", "setmarkersizelocal", "setpipeffect"],
  between .number .array .nothing [
    "cutobj", "cutrsc", "cuttext", "enablechannel", "ppeffectadjust", "radiochanneladd",
    "radiochannelremove", "setfog", "setforcegeneratorrtd", "setfsmvariable"],
  between .group .array .object ["createunit"],
  between .object .array .nothing [
    "campreparetarget", "camsettarget", "commandsuppressivefire", "dosuppressivefire", "glanceat",
    "lookat", "moveincargo", "reveal"],
  between .group .array .nothing [
    "move", "reveal", "setcurrentwaypoint", "setgroupicon", "setgroupiconparams", "setgroupid",
    "setgroupidglobal", "setvariable"],
  between .nspace .array .nothing ["setvariable"],
  between .teamMember .array .nothing ["addresources", "deleteresources", "setvariable"],
  between .task .array .nothing [
    "sendtaskresult", "setsimpletaskcustomdata", "setsimpletaskdescription",
    "setsimpletaskdestination", "setsimpletasktarget", "settaskresult", "setvariable"],
  between .location .array .nothing ["setposition", "setsize", "setvariable"],
  between .array .object .nothing [
    "commandfire", "commandfollow", "commandsuppressivefire", "commandtarget", "dofire", "dofollow",
    "dosuppressivefire", "dotarget", "glanceat", "join", "joinsilent", "lookat", "ropeattachto",
    "waypointattachobject", "waypointattachvehicle"],
  between .array .array .nothing [
    "append", "commandartilleryfire", "commandfsm", "commandmove", "commandsuppressivefire",
    "commandwatch", "deleterange", "doartilleryfire", "dofsm", "domove", "dosuppressivefire",
    "dowatch", "glanceat", "lookat", "say", "say2d", "say3d", "set", "setsoundeffect",
    "settitleeffect", "setwaypointposition", "setwaypointstatements", "setwaypointtimeout",
    "setwppos", "synchronizewaypoint"],
  between .array .number .nothing [
    "ppeffectcommit", "resize", "setwaypointcompletionradius", "setwaypointhouseposition",
    "setwaypointloiterradius", "waypointattachobject"],
  between .object .object .nothing ["commandwatch", "dowatch"],
  between .array .object .nothing ["commandwatch", "dowatch"],
  between .array .group .nothing ["join", "joinsilent"],
  between .object .array .nothing ["synchronizewaypoint"],
  between .string .array .string ["select", "setattributes"],
  between .array .code .array ["apply", "select"],
  between .config .number .config ["select"],
  between .string .array .string ["setattributes"]]

end ArmaScript.Catalogue
